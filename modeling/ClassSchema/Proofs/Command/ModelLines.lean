import ClassSchema.Command.Invocation

/-!
# Command lines for models

For each directory, each class and each file there is a command line that asks for the
conversion of a model.  Values are attached to their options and the file comes behind two
dashes, so it does not matter what their words look like.

## Main results

* `parse_modelLine`: a command line for each request.
-/

namespace ClassSchema.Command

/-- An option with its value attached to it. -/
def attached (setting : Setting) (value : String) : String :=
  (Switch.setting setting).name ++ "=" ++ value

/-- The words for some options of the command and for its operand, if it has one. -/
def modelWords (options : List (Setting × String)) (path : Option String) : List String :=
  options.map (fun option => attached option.1 option.2) ++ path.toList.flatMap (["--", ·])

/-- A command line that asks for the conversion of a model. -/
def modelLine (out className path : Option String) : List String :=
  "m2jsons" :: modelWords (out.toList.map (.out, ·) ++ className.toList.map (.className, ·)) path

/-- The value is cut off where its equals sign stands. -/
private theorem cutValue_attached (setting : Setting) (value : String) :
    Role.cutValue (attached setting value).toList =
      ((Switch.setting setting).name.toList, some value) := by
  cases setting <;>
    simp [attached, Switch.name, Role.cutValue, List.dropWhile, List.takeWhile]

/-- An option with its value begins with two dashes and goes on behind them. -/
private theorem exists_dashes (setting : Setting) (value : String) :
    ∃ c tail, (attached setting value).toList = '-' :: '-' :: c :: tail := by
  cases setting <;> simp [attached, Switch.name]

/-- An option that is known by its name has its value. -/
private theorem ofWord_known {known : List Switch} {setting : Setting}
    (h : Role.matching known (Switch.setting setting).name.toList = [.setting setting])
    (value : String) :
    Role.ofWord known (attached setting value).toList = .setting setting (some value) := by
  have cut := cutValue_attached setting value
  obtain ⟨c, tail, hWord⟩ := exists_dashes setting value
  rw [hWord] at cut ⊢
  simp only [Role.ofWord, cut, h, Role.ofSwitch]

/-- Any other option is a word that nobody knows. -/
private theorem ofWord_unknown {known : List Switch} {setting : Setting}
    (h : Role.matching known (Switch.setting setting).name.toList = []) (value : String) :
    Role.ofWord known (attached setting value).toList =
      Role.ofUnmatched (attached setting value).toList := by
  have cut := cutValue_attached setting value
  obtain ⟨c, tail, hWord⟩ := exists_dashes setting value
  rw [hWord] at cut ⊢
  simp only [Role.ofWord, cut, h]

/-- The command knows its options. -/
private theorem roles_model_attached (setting : Setting) (value : String) (rest : List String) :
    roles Task.model.switches (attached setting value :: rest) =
      (attached setting value, .setting setting (some value)) ::
        roles Task.model.switches rest := by
  have known : Role.matching Task.model.switches (Switch.setting setting).name.toList =
      [.setting setting] := by
    cases setting <;> decide
  rw [roles, ofWord_known known]

/-- No word in front of the command could be one of several options. -/
def Clear (words : List String) : Prop := ∀ word ∈ roles mainSwitches words, word.2 ≠ .ambiguous

theorem clear_nil : Clear [] := by simp [Clear, roles]

/-- Options of the command are unknown in front of it. -/
private theorem clear_attached {rest : List String} (h : Clear rest) (setting : Setting)
    (value : String) : Clear (attached setting value :: rest) := by
  have known : Role.matching mainSwitches (Switch.setting setting).name.toList = [] := by
    cases setting <;> decide
  intro word mem
  rw [roles, ofWord_unknown known] at mem
  split at mem
  · next hSeparator =>
      simp only [Role.ofUnmatched] at hSeparator
      split at hSeparator <;> cases hSeparator
  · rcases List.mem_cons.mp mem with rfl | mem
    · simp only [Role.ofUnmatched]
      split <;> simp
    · exact h word mem

/-- Behind two dashes there are operands. -/
private theorem clear_operands (operands : List String) : Clear ("--" :: operands) := by
  intro word mem
  rw [roles_after_separator] at mem
  rcases List.mem_cons.mp mem with rfl | mem
  · simp
  · obtain ⟨_, -, rfl⟩ := List.mem_map.mp mem
    simp

private theorem map_fst_roles (known : List Switch) (words : List String) :
    (roles known words).map (·.1) = words := by
  induction words with
  | nil => rfl
  | cons word rest ih =>
      unfold roles
      split
      · simp [Function.comp_def]
      · rw [List.map_cons, ih]

/-- Behind its name, the command has all words to itself. -/
private theorem parse_command {words : List String} (clear : Clear words) :
    parse ("m2jsons" :: words) = settle false false (parseTask .model words) := by
  have hRoles : roles mainSwitches ("m2jsons" :: words) =
      ("m2jsons", .operand) :: roles mainSwitches words := rfl
  have noneAmbiguous :
      (("m2jsons", .operand) :: roles mainSwitches words).any (·.2 = .ambiguous) = false := by
    rw [List.any_eq_false]
    intro word mem
    rcases List.mem_cons.mp mem with rfl | mem
    · decide
    · simpa using clear word mem
  rw [parse]
  simp only [hRoles, noneAmbiguous, Bool.false_eq_true, if_false]
  show settle false false (parseTask .model ((roles mainSwitches words).map (·.1))) = _
  rw [map_fst_roles]

/-- Options of the command are set one after the other. -/
private theorem gather_options (options : List (Setting × String)) (path : Option String)
    (gathered : Gathered) :
    gather .model gathered (roles Task.model.switches (modelWords options path)) =
      gather .model (options.foldl (fun gathered option => gathered.set option.1 option.2) gathered)
        (roles Task.model.switches (modelWords [] path)) := by
  induction options generalizing gathered with
  | nil => rfl
  | cons option rest ih =>
      obtain ⟨setting, value⟩ := option
      rw [List.foldl_cons, ← ih]
      simp only [modelWords, List.map_cons, List.cons_append, roles_model_attached, gather]

/-- The words of the command, from the last one to the first. -/
private theorem modelWords_induction {motive : List String → Prop}
    (options : List (Setting × String)) (path : Option String) (nil : motive [])
    (operands : ∀ operands, motive ("--" :: operands))
    (cons : ∀ setting value rest, motive rest → motive (attached setting value :: rest)) :
    motive (modelWords options path) := by
  induction options with
  | nil =>
      cases path with
      | none => exact nil
      | some path => exact operands [path]
  | cons option rest ih => exact cons option.1 option.2 _ ih

/-- **There is a command line for each request**, with a file and without. -/
theorem parse_modelLine (out className path : Option String) :
    parse (modelLine out className path) = .convertModel path ⟨.ofPath? out, className⟩ := by
  have clear := fun options => modelWords_induction (motive := Clear) options path clear_nil
    clear_operands fun setting value _ h => clear_attached h setting value
  have noneAmbiguous : ∀ options,
      (roles Task.model.switches (modelWords options path)).any (·.2 = .ambiguous) = false := by
    refine fun options => modelWords_induction (motive := fun words =>
      (roles Task.model.switches words).any (·.2 = .ambiguous) = false) options path rfl ?_ ?_
    · intro operands
      simp [roles_after_separator]
    · intro setting value rest h
      rw [roles_model_attached]
      simpa using h
  rw [modelLine, parse_command (clear _), parseTask]
  simp only [noneAmbiguous, Bool.false_eq_true, if_false]
  rw [gather_options]
  cases out <;> cases className <;> cases path <;> rfl

end ClassSchema.Command
