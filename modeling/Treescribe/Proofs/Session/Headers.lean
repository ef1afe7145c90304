import Treescribe.Proofs.Session.Annotations
import Treescribe.Proofs.Session.Writes
import Treescribe.Proofs.Text.Placeholders

/-!
# Headers of functions

The header of a function is a template with marks for its keywords, its name and its parameters,
which are filled in one after another. The parameters come last, and wherever their mark stands,
so a name that has the mark in it receives them, too. `Function.headline` is the header with any
text in the place of the name; the name stands there unchanged exactly if it does not have the
mark in it, or if the mark is what the parameters look like.
-/

namespace Treescribe

namespace TypeTag

/-- The target text of the type that a text names, if it names one. -/
def code? (text : String) : Option String :=
  (read text).toOption.map (·.target.code)

/-- The name of a type is read. -/
theorem exists_read {text : String} (spelled : isSpelled text = true) :
    ∃ tag, read text = .ok tag := by
  have passes := failure?_read text
  rw [if_pos spelled] at passes
  exact failure?_eq_none_iff.mp passes

end TypeTag

/-- The text of a parameter: its type if it has one, its name, and its default if it has one. -/
def Parameter.text (layout : Layout) (parameter : Parameter) : String :=
  " ".intercalate ((parameter.type.bind TypeTag.code?).toList ++ [parameter.name] ++
    (parameter.default.map fun value => "= " ++ Value.code layout value).toList)

/-- A parameter has its text if its type is known. -/
theorem Parameter.code_eq_text {parameter : Parameter}
    (valid : ∀ type ∈ parameter.type, TypeTag.isSpelled type = true) (layout : Layout) :
    parameter.code layout = .ok (parameter.text layout) := by
  unfold code text
  cases stated : parameter.type with
  | none => rfl
  | some type =>
    obtain ⟨tag, known⟩ := TypeTag.exists_read (valid type stated)
    simp only [TypeTag.readOptional, known, Option.bind_some, TypeTag.code?]
    rfl

namespace Function

/-- What a function says of its result before its name. -/
def resultWords (function : Function) (className : String) : List String :=
  match function.isOverride, function.returnType with
  | false, none => if function.name = className then [] else ["void"]
  | true, none => ["override"]
  | false, some type => (TypeTag.code? type).toList
  | true, some type => "override" :: (TypeTag.code? type).toList

/-- The keywords before the name of a function: its access, `static` if it is so, and what it
says of its result. -/
def headWords (function : Function) (modifiers : Modifiers) (className : String) : List String :=
  (modifiers.access.getD .publicAccess).keyword ::
    ((if modifiers.isStatic then ["static"] else []) ++ function.resultWords className)

/-- The parameters of a function as they stand in its header. -/
def parameterList (function : Function) (layout : Layout) : String :=
  ", ".intercalate (function.parameters.map (Parameter.text layout))

/-- The line that opens a function, with a text in the place of its name. -/
def headline (function : Function) (layout : Layout) (modifiers : Modifiers)
    (className name : String) : String :=
  " ".intercalate (function.headWords modifiers className) ++ " " ++ name ++ "(" ++
    function.parameterList layout ++ ")"

/-- The name of a function with its parameters in the place of their mark. -/
def filledName (function : Function) (layout : Layout) : String :=
  String.ofList (Text.fill parametersMark.toList (function.parameterList layout).toList
    function.name.toList)

variable {function : Function}

/-- The keywords of a function say what it says of its result, if the type of that is known. -/
theorem typeKeywords_eq_resultWords
    (valid : ∀ type ∈ function.returnType, TypeTag.isSpelled type = true) (className : String) :
    function.typeKeywords className = .ok (function.resultWords className) := by
  unfold typeKeywords resultWords
  cases stated : function.returnType with
  | none => cases function.isOverride <;> rfl
  | some type =>
    obtain ⟨tag, known⟩ := TypeTag.exists_read (valid type stated)
    cases function.isOverride <;> simp only [known, TypeTag.code?] <;> rfl

/-- The parameters of a function have their texts if their types are known. -/
theorem mapM_code_eq_text
    (valid : ∀ parameter ∈ function.parameters, ∀ type ∈ parameter.type,
      TypeTag.isSpelled type = true) (layout : Layout) :
    function.parameters.mapM (Parameter.code layout) =
      .ok (function.parameters.map (Parameter.text layout)) := by
  rw [mapM_eq_ok_iff, List.forall₂_map_right_iff, List.forall₂_same]
  exact fun parameter member => parameter.code_eq_text (valid parameter member) layout

/-- The target types of tags have no number sign, with which the mark of the parameters begins. -/
theorem not_mem_code? {type code : String} (written : code ∈ TypeTag.code? type) :
    '#' ∉ code.toList := by
  obtain ⟨tag, -, rfl⟩ := Option.map_eq_some_iff.mp written
  cases tag <;> decide

/-- Nor has any keyword before the name of a function. -/
theorem not_mem_headWords (modifiers : Modifiers) (className : String) :
    ∀ word ∈ function.headWords modifiers className, '#' ∉ word.toList := by
  have result : ∀ word ∈ function.resultWords className, '#' ∉ word.toList := by
    unfold resultWords
    cases function.isOverride <;> cases function.returnType <;> dsimp only
    · split_ifs <;> decide
    · exact fun word member => not_mem_code? (Option.mem_toList.mp member)
    · decide
    · intro word member
      rcases List.mem_cons.mp member with rfl | member
      · decide
      · exact not_mem_code? (Option.mem_toList.mp member)
  intro word member
  rcases List.mem_cons.mp member with rfl | member
  · cases modifiers.access.getD .publicAccess <;> decide
  · rcases List.mem_append.mp member with static | member
    · split at static
      · rw [List.mem_singleton.mp static]
        decide
      · cases static
    · exact result word member

/-- The keywords before the name of a function have no mark in them. -/
theorem fill_headWords {mark : List Char} (begins : mark.head? = some '#') (filling : List Char)
    (modifiers : Modifiers) (className : String) :
    Text.fill mark filling (" ".intercalate (function.headWords modifiers className)).toList =
      (" ".intercalate (function.headWords modifiers className)).toList := by
  obtain ⟨rest, rfl⟩ := List.head?_eq_some_iff.mp begins
  have free : '#' ∉ (" ".intercalate (function.headWords modifiers className)).toList := by
    rw [String.toList_intercalate]
    apply Text.not_mem_intercalate (by decide)
    intro piece member
    obtain ⟨word, listed, rfl⟩ := List.mem_map.mp member
    exact not_mem_headWords modifiers className word listed
  exact (Text.fill_eq_self_iff (by simp)).mpr (.inl fun occurs => free (occurs.subset (by simp)))

/-- A header whose parameters are filled in has them in their place and in the name. -/
theorem headerText_eq_headline (layout : Layout) (modifiers : Modifiers) (className : String) :
    function.headerText (function.headWords modifiers className)
        (function.parameters.map (Parameter.text layout)) =
      function.headline layout modifiers className (function.filledName layout) := by
  have some : parametersMark.toList ≠ [] := by decide
  have ending : Text.fill parametersMark.toList (function.parameterList layout).toList [')'] =
      [')'] := rfl
  -- The blank before the name and the parenthesis behind it keep their occurrences apart.
  rw [headerText, ← parameterList, ← String.toList_inj]
  have parts : (" ".intercalate (function.headWords modifiers className) ++ " " ++ function.name ++
      "(" ++ parametersMark ++ ")").toList =
        (" ".intercalate (function.headWords modifiers className)).toList ++
          ' ' :: (function.name.toList ++ '(' :: (parametersMark.toList ++ [')'])) := by
    simp
  simp only [String.toList_ofList, parts]
  rw [Text.fill_append_cons some (by decide), Text.fill_append_cons some (by decide),
    Text.fill_placeholder_append some, fill_headWords rfl, ending]
  simp [headline, filledName]

/-- The marks of the keywords, the name and the parameters of a function, where they stand in
its header. -/
def template : String := "#MODIFIERS #NAME(#PARAMETERS)"

/-- The template with its marks filled in one after another. -/
def fillTemplate (keywords name parameters : String) : String :=
  String.ofList (Text.fill parametersMark.toList parameters.toList
    (Text.fill "#NAME".toList name.toList
      (Text.fill "#MODIFIERS".toList keywords.toList template.toList)))

/-- The template filled in is the header: neither the keywords nor the name take part in the
filling of a mark before that of the parameters. -/
theorem fillTemplate_eq_headline (layout : Layout) (modifiers : Modifiers) (className : String) :
    fillTemplate (" ".intercalate (function.headWords modifiers className)) function.name
        (function.parameterList layout) =
      function.headline layout modifiers className (function.filledName layout) := by
  have keywords : Text.fill "#MODIFIERS".toList
      (" ".intercalate (function.headWords modifiers className)).toList template.toList =
        (" ".intercalate (function.headWords modifiers className)).toList ++
          ' ' :: ("#NAME".toList ++ '(' :: (parametersMark.toList ++ [')'])) := by
    have behind : ∀ filling : List Char, Text.fill "#MODIFIERS".toList filling
        " #NAME(#PARAMETERS)".toList = " #NAME(#PARAMETERS)".toList := fun _ => rfl
    have parts : template.toList = "#MODIFIERS".toList ++ " #NAME(#PARAMETERS)".toList := by decide
    rw [parts, Text.fill_placeholder_append (by decide), behind]
    rfl
  have name : ∀ start : List Char, Text.fill "#NAME".toList function.name.toList start = start →
      Text.fill "#NAME".toList function.name.toList
          (start ++ ' ' :: ("#NAME".toList ++ '(' :: (parametersMark.toList ++ [')']))) =
        start ++ ' ' :: (function.name.toList ++ '(' :: (parametersMark.toList ++ [')'])) := by
    intro start kept
    have behind : Text.fill "#NAME".toList function.name.toList
        ('(' :: (parametersMark.toList ++ [')'])) = '(' :: (parametersMark.toList ++ [')']) := rfl
    rw [Text.fill_append_cons (by decide) (by decide), kept,
      Text.fill_placeholder_append (by decide), behind]
  rw [← headerText_eq_headline, fillTemplate, keywords, name _ (fill_headWords rfl ..), headerText,
    parameterList]
  simp

/-- A function in a class has the header that is made up of its parts, if its types are known. -/
theorem header_eq_headline
    (valid : ∀ type ∈ function.annotations, TypeTag.isSpelled type = true) (layout : Layout)
    (modifiers : Modifiers) (className : String) :
    function.header layout modifiers className =
      .ok (function.headline layout modifiers className (function.filledName layout)) := by
  have typed : function.typeKeywords className = .ok (function.resultWords className) :=
    typeKeywords_eq_resultWords
      (fun type stated => valid type (by simp [annotations, Option.mem_def.mp stated])) className
  have coded : function.parameters.mapM (Parameter.code layout) =
      .ok (function.parameters.map (Parameter.text layout)) := by
    refine mapM_code_eq_text (fun parameter member type stated => valid type ?_) layout
    refine List.mem_append_right _ (List.mem_flatMap.mpr ⟨parameter, member, ?_⟩)
    exact Option.mem_toList.mpr stated
  have words : modifiers.keywords (some .publicAccess) ++ function.resultWords className =
      function.headWords modifiers className := by
    unfold Modifiers.keywords headWords
    cases modifiers.access <;> rfl
  rw [header, typed, coded, ← headerText_eq_headline, ← words]
  rfl

/-- The line that opens a function tells what stands in the place of its name. -/
theorem headline_inj {layout : Layout} {modifiers : Modifiers} {className name other : String} :
    function.headline layout modifiers className name =
      function.headline layout modifiers className other ↔ name = other := by
  refine ⟨fun same => ?_, fun same => same ▸ rfl⟩
  simpa [headline, ← String.toList_inj] using same

end Function

namespace Session

/-- The header of a function in a class whose types are known is made up of its keywords, its
name and its parameters, but in the name the parameters are filled in for each occurrence of
their mark, as they are in the template. It has the name unchanged exactly if the mark does not
occur in it, or if the parameters look like the mark. Nothing but a refusal of the sink keeps
the header from being written. -/
theorem header_of_function {session : Session} {node : Node} {function : Function}
    (content : node.content = .function function) {enclosing : Frame}
    (inClass : session.scopes.enclosingClass? = some enclosing)
    (valid : ∀ type ∈ function.annotations, TypeTag.isSpelled type = true) :
    Performs session.emitter
      (headerCalls (function.headline session.layout session.modifiers enclosing.name
        (function.filledName session.layout)))
      (session.visit (.enter (.inner node))) ∧
    function.headline session.layout session.modifiers enclosing.name
        (function.filledName session.layout) =
      Function.fillTemplate
        (" ".intercalate (function.headWords session.modifiers enclosing.name)) function.name
        (function.parameterList session.layout) ∧
    (∃ first others,
      function.name.toList = Function.parametersMark.toList.intercalate (first :: others) ∧
      (function.filledName session.layout).toList =
        (function.parameterList session.layout).toList.intercalate (first :: others) ∧
      ∀ piece ∈ first :: others, ¬ Function.parametersMark.toList <:+: piece) ∧
    (function.headline session.layout session.modifiers enclosing.name
        (function.filledName session.layout) =
      function.headline session.layout session.modifiers enclosing.name function.name ↔
        ¬ Function.parametersMark.toList <:+: function.name.toList ∨
          function.parameterList session.layout = Function.parametersMark) := by
  have some : Function.parametersMark.toList ≠ [] := by decide
  refine ⟨?_, (Function.fillTemplate_eq_headline ..).symm, ?_, ?_⟩
  · have header := Function.header_eq_headline valid session.layout session.modifiers enclosing.name
    have planned : session.plan (.enter (.inner node)) =
        .ok (Action.openBlock (function.headline session.layout session.modifiers enclosing.name
          (function.filledName session.layout)) ++ [.enterScope (functionFrame function true)]) := by
      simp only [plan, enterNode, content, enterFunction, inClass, header]
      rfl
    exact visit_performs planned
  · obtain ⟨first, others, whole, filled, free⟩ := Text.exists_pieces some function.name.toList
    exact ⟨first, others, whole, by rw [Function.filledName, String.toList_ofList, filled], free⟩
  · rw [Function.headline_inj, ← String.toList_inj, Function.filledName, String.toList_ofList,
      Text.fill_eq_self_iff some, String.toList_inj]

/-- A session in a class and in blocks that make its members private and static. -/
def inShape : Session :=
  { preamble := false
    emitter := { layout := .compact }
    scopes := [{ kind := .classBody, name := "Shape", emitted := true }]
    classes := ["Shape"]
    modifiers := { access := some .privateAccess, isStatic := true } }

/-- A function with a type, a default and a parameter that looks like the mark of a name. -/
def areaFunction : Function :=
  { name := "area", parameters := [⟨"scale", some " Float ", some "'x'"⟩, ⟨"#NAME", none, none⟩],
    isOverride := true, returnType := some "Float" }

/-- The header of that function in that session. -/
theorem header_of_function_area :
    Performs inShape.emitter
      (headerCalls "private static override float area(float scale = \"x\", #NAME)")
      (inShape.visit (.enter (.inner ⟨1, .function areaFunction, []⟩))) := by
  have valid : ∀ type ∈ areaFunction.annotations, TypeTag.isSpelled type = true :=
    List.all_eq_true.mp (by decide +kernel)
  have header : areaFunction.headline .compact inShape.modifiers "Shape"
      (areaFunction.filledName .compact) =
        "private static override float area(float scale = \"x\", #NAME)" := by decide +kernel
  rw [← header]
  exact (header_of_function rfl rfl valid).1

/-- A function in whose name the mark of its parameters stands. -/
def markedFunction : Function :=
  { name := "f#PARAMETERS", parameters := [⟨"a", some "Integer", none⟩], isOverride := false,
    returnType := none }

/-- The name of that function does not stand unchanged in its header: it receives the parameters,
too. -/
theorem parameters_in_name :
    markedFunction.annotations.all TypeTag.isSpelled = true ∧
    (inShape.visit (.enter (.inner ⟨1, .function markedFunction, []⟩))).1 = .ok () ∧
    (inShape.visit (.enter (.inner ⟨1, .function markedFunction, []⟩))).2.emitter.sink.text =
      "private static void fint a(int a) \x7b" ∧
    markedFunction.headline .compact inShape.modifiers "Shape" markedFunction.name ++ " \x7b" =
      "private static void f#PARAMETERS(int a) \x7b" := by
  decide +kernel

end Session

end Treescribe
