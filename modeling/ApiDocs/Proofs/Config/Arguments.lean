import ApiDocs.Config

/-!
# What a command line says

Flags may stand anywhere among the arguments. What a command line asks for is told by three things:
whether an argument asks for help, whether the flag is there, and the other arguments in their order.
Of the environment it takes the values that are not empty.
-/

namespace ApiDocs

namespace Arguments

/-- The arguments that are no flag for merging, in order. -/
def operands (args : List String) : List String :=
  args.filter (· ≠ "--appledocs")

/-- One of the arguments asks for help. -/
def AskForHelp (args : List String) : Prop :=
  "-h" ∈ args ∨ "--help" ∈ args

instance (args : List String) : Decidable (AskForHelp args) :=
  inferInstanceAs (Decidable (_ ∨ _))

/-- What has been read once all of `args` has been read after `before`. Help is not asked for. -/
def readOn (before : Arguments) (args : List String) : Arguments where
  mergeExternal := before.mergeExternal || args.contains "--appledocs"
  metadataPath := before.metadataPath.or (operands args).head?
  docsRoot :=
    let roots := if before.metadataPath.isSome then operands args else (operands args).tail
    roots.getLast?.or before.docsRoot

theorem operands_flag (rest : List String) : operands ("--appledocs" :: rest) = operands rest := rfl

theorem operands_cons {arg : String} (h : arg ≠ "--appledocs") (rest : List String) :
    operands (arg :: rest) = arg :: operands rest :=
  List.filter_cons_of_pos (by simpa using h)

theorem mem_operands_iff {arg : String} (h : arg ≠ "--appledocs") {args : List String} :
    arg ∈ operands args ↔ arg ∈ args := by
  simp [operands, List.mem_filter, h]

theorem askForHelp_operands (args : List String) : AskForHelp (operands args) ↔ AskForHelp args := by
  rw [AskForHelp, AskForHelp, mem_operands_iff (by decide), mem_operands_iff (by decide)]

theorem askForHelp_cons {arg : String} {rest : List String} :
    AskForHelp (arg :: rest) ↔ (arg = "-h" ∨ arg = "--help") ∨ AskForHelp rest := by
  simp only [AskForHelp, List.mem_cons, eq_comm (b := arg)]
  exact or_or_or_comm

theorem read?_of_askForHelp {args : List String} (h : AskForHelp args) (before : Arguments) :
    before.read? args = none := by
  induction args generalizing before with
  | nil => simp [AskForHelp] at h
  | cons arg rest ih =>
    rw [read?]
    by_cases hhelp : arg = "-h" ∨ arg = "--help"
    · rw [if_pos hhelp]
    · have hrest : AskForHelp rest := (askForHelp_cons.1 h).resolve_left hhelp
      rw [if_neg hhelp, ih hrest, ih hrest, ih hrest]
      simp

/-- One argument is read as `readOn` says, and the others after it. -/
theorem read?_of_not_askForHelp {args : List String} (h : ¬ AskForHelp args) (before : Arguments) :
    before.read? args = some (before.readOn args) := by
  induction args generalizing before with
  | nil => simp [read?, readOn, operands]
  | cons arg rest ih =>
    rw [askForHelp_cons, not_or] at h
    obtain ⟨harg, hrest⟩ := h
    rw [read?, if_neg harg]
    by_cases hflag : arg = "--appledocs"
    · subst hflag
      rw [if_pos rfl, ih hrest]
      simp [readOn, operands_flag]
    · rw [if_neg hflag]
      have hoperands := operands_cons hflag rest
      have hcontains : (arg :: rest).contains "--appledocs" = rest.contains "--appledocs" := by
        simp [Ne.symm hflag]
      cases hpath : before.metadataPath with
      | none =>
        -- the first operand is the metadata source
        rw [if_pos (by simp), ih hrest]
        simp only [readOn, hoperands, hcontains, hpath, Option.isSome_some, if_true, Option.isSome_none,
          Bool.false_eq_true, if_false]
        rfl
      | some path =>
        -- any other one is the root, as long as none follows
        rw [if_neg (by simp), ih hrest]
        simp only [readOn, hoperands, hcontains, hpath, Option.isSome_some, if_true,
          List.getLast?_cons]
        cases (operands rest).getLast? <;> rfl

end Arguments

open Arguments

/-- The configuration for these paths, with everything else from the environment. -/
def Config.given (metadataPath docsRoot : String) (mergeExternal : Bool)
    (environment : String → Option String) : Config :=
  let setting (s : Setting) := (environment s.name).filter (· ≠ "")
  { metadataPath, docsRoot, mergeExternal
    onlyType := setting .onlyType
    notificationType := (setting .notificationType).getD defaultNotificationType
    fragmentRoot := (setting .fragmentRoot).getD (Path.join docsRoot "appledocs")
    verbosity := .ofName (setting .verbosity)
    logFile := setting .logFile }

namespace Command

variable {args : List String} {environment : String → Option String}

theorem ofArgs_of_askForHelp (h : AskForHelp args) :
    ofArgs args environment = .ok .help := by
  simp only [ofArgs, read?_of_askForHelp h]

theorem ofArgs_of_few (h : ¬ AskForHelp args) (hfew : (operands args).length < 2) :
    ofArgs args environment = .error .usage := by
  have htail : (operands args).tail = [] := by
    rw [← List.length_eq_zero_iff, List.length_tail]
    omega
  simp [ofArgs, read?_of_not_askForHelp h, readOn, htail]

theorem ofArgs_of_many {path root : String} {others : List String} (h : ¬ AskForHelp args)
    (hoperands : operands args = path :: (others ++ [root])) :
    ofArgs args environment =
      .ok (.run (.given path root (args.contains "--appledocs") environment)) := by
  simp [ofArgs, read?_of_not_askForHelp h, readOn, hoperands, Config.given]

/-- Each command line is of one of three kinds. -/
theorem kinds (args : List String) :
    AskForHelp args ∨ (¬ AskForHelp args ∧ (operands args).length < 2) ∨
      (¬ AskForHelp args ∧ ∃ path others root, operands args = path :: (others ++ [root])) := by
  by_cases hhelp : AskForHelp args
  · exact .inl hhelp
  · right
    rcases hoperands : operands args with _ | ⟨path, _ | ⟨first, rest⟩⟩
    · exact .inl ⟨hhelp, by simp⟩
    · exact .inl ⟨hhelp, by simp⟩
    · obtain ⟨others, root, hlast⟩ :=
        (List.eq_nil_or_concat (first :: rest)).resolve_left (List.cons_ne_nil first rest)
      exact .inr ⟨hhelp, path, others, root, by rw [hlast, List.concat_eq_append]⟩

/-- The three things that are told by the arguments decide the command, with the environment. -/
theorem ofArgs_congr {args' : List String} (hoperands : operands args' = operands args)
    (hflag : "--appledocs" ∈ args' ↔ "--appledocs" ∈ args) :
    ofArgs args' environment = ofArgs args environment := by
  have hhelp : AskForHelp args' ↔ AskForHelp args := by
    rw [← askForHelp_operands, hoperands, askForHelp_operands]
  have hcontains : args'.contains "--appledocs" = args.contains "--appledocs" := by
    rw [Bool.eq_iff_iff, List.contains_iff_mem, List.contains_iff_mem, hflag]
  rcases kinds args with h | ⟨h, hfew⟩ | ⟨h, path, others, root, hmany⟩
  · rw [ofArgs_of_askForHelp h, ofArgs_of_askForHelp (hhelp.2 h)]
  · rw [ofArgs_of_few h hfew, ofArgs_of_few (mt hhelp.1 h) (hoperands ▸ hfew)]
  · rw [ofArgs_of_many h hmany, ofArgs_of_many (mt hhelp.1 h) (hoperands.trans hmany), hcontains]

theorem ofArgs_congr_environment {environment' : String → Option String}
    (h : ∀ key, (environment' key).filter (· ≠ "") = (environment key).filter (· ≠ "")) :
    ofArgs args environment' = ofArgs args environment := by
  simp only [ofArgs, h]

/-- What is asked for with these arguments. -/
structure Answers (args : List String) (environment : String → Option String)
    (answer : Except Failure Command) : Prop where
  help : answer = .ok .help ↔ AskForHelp args
  usage : answer = .error .usage ↔ ¬ AskForHelp args ∧ (operands args).length < 2
  /-- The first operand is the metadata source, and the last one is the root. -/
  run : ¬ AskForHelp args → 2 ≤ (operands args).length →
    ∃ path root, (operands args).head? = some path ∧ (operands args).getLast? = some root ∧
      answer = .ok (.run (.given path root ("--appledocs" ∈ args) environment))

theorem answers_ofArgs (args : List String) (environment : String → Option String) :
    Answers args environment (ofArgs args environment) := by
  rcases kinds args with h | ⟨h, hfew⟩ | ⟨h, path, others, root, hmany⟩
  · rw [ofArgs_of_askForHelp h]
    exact ⟨by simp [h], by simp [h], fun hno => absurd h hno⟩
  · rw [ofArgs_of_few h hfew]
    refine ⟨by simp [h], by simp [h, hfew], fun _ hmany => ?_⟩
    omega
  · rw [ofArgs_of_many h hmany]
    refine ⟨by simp [h], by simp [hmany], fun _ _ => ⟨path, root, ?_, ?_, ?_⟩⟩
    · rw [hmany, List.head?_cons]
    · rw [hmany, ← List.cons_append, List.getLast?_concat]
    · rw [List.contains_eq_mem]

/-- The flag may be moved and repeated, and a variable without a value may as well be empty: what is
asked for stays the same. -/
theorem ofArgs_answers (args : List String) (environment : String → Option String) :
    Answers args environment (ofArgs args environment) ∧
      (∀ args', operands args' = operands args →
        ("--appledocs" ∈ args' ↔ "--appledocs" ∈ args) →
        ofArgs args' environment = ofArgs args environment) ∧
      ∀ environment' : String → Option String,
        (∀ key, (environment' key).filter (· ≠ "") = (environment key).filter (· ≠ "")) →
        ofArgs args environment' = ofArgs args environment :=
  ⟨answers_ofArgs args environment, fun _ => ofArgs_congr, fun _ => ofArgs_congr_environment⟩

/-- An unknown flag is an operand like any other, and the root is the last one. -/
theorem ofArgs_answers_interleaved :
    let args := ["lib", "--appledocs", "a", "--verbose", "b", "--appledocs"]
    let unset : String → Option String := fun _ => none
    let empty : String → Option String := fun key => if key = "DOCFIXER_LOG" then some "" else none
    ofArgs args unset =
        .ok (.run { metadataPath := "lib", docsRoot := "b", mergeExternal := true }) ∧
      ofArgs ["--appledocs", "lib", "a", "--verbose", "b"] unset = ofArgs args unset ∧
      ofArgs args empty = ofArgs args unset := by
  intro args unset empty
  obtain ⟨hanswers, hmoved, henvironment⟩ := ofArgs_answers args unset
  obtain ⟨path, root, hpath, hroot, hrun⟩ := hanswers.run (by decide) (by decide)
  obtain rfl : "lib" = path := Option.some.inj hpath
  obtain rfl : "b" = root := Option.some.inj hroot
  have hconfig : Config.given "lib" "b" ("--appledocs" ∈ args) unset =
      { metadataPath := "lib", docsRoot := "b", mergeExternal := true } := by decide
  refine ⟨hconfig ▸ hrun, hmoved _ (by decide) (by decide), henvironment _ fun key => ?_⟩
  by_cases h : key = "DOCFIXER_LOG" <;> simp [empty, unset, h]

end Command

end ApiDocs
