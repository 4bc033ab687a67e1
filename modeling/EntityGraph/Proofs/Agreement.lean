import Mathlib
import EntityGraph.CommandLine.Run
import EntityGraph.Proofs.Coherence
import EntityGraph.Proofs.Hosts

/-!
# Three commands on one document

A document can be asked whether it is valid, for its fingerprint and for its description. The first
request goes another way than the others to its answer, and each may be a run on a host of its own.
All of them agree nevertheless: they look at one schema, and end in one of three ways. There is a
schema, and it is shown; there is none, which is reported; or a failure is not reported, which is
then the same for all. The reports are the same up to the words for a default that contains itself.
-/

namespace EntityGraph

/-! ### Schemas that can be shown -/

private theorem Schema.exists_validate_of_compile {host : Host} {config : CompilerConfig}
    {entities : List EntityDecl} {name version : Value} {s : Schema}
    (h : (compile host config entities name version).result = .ok s) :
    ∃ findings, s.graph.validate = .ok findings := by
  simp only [compile, Traced.result_bind_eq_ok] at h
  obtain ⟨_, -, _, -, _, -, _, -, _, -, schema, -, findings, hfindings, _, -, _, -, h⟩ := h
  obtain rfl := Except.ok.inj h
  exact ⟨findings, (Success.mapError_eq_ok _ _ _).mp hfindings⟩

/-- An object of two entries has them on lines of their own. -/
private theorem Json.text_document_pair {key other : String} {v w : Value} {first second : String}
    (hv : write .document 1 v = .ok first) (hw : write .document 1 w = .ok second) :
    text .document (.record [(key, v), (other, w)]) =
      .ok ("\x7b\n  " ++ quoted key ++ ": " ++ first ++ ",\n  " ++ quoted other ++ ": " ++ second ++
        "\n\x7d") := by
  have members : objectMembers .document
      (writeEntries .document 1 [(.text key, v), (.text other, w)]) =
      .ok [quoted key ++ ": " ++ first, quoted other ++ ": " ++ second] := by
    simp only [writeEntries, objectMembers, hv, hw]
    rfl
  have braces : ∀ first second, Style.document.object 0 [first, second] =
      "\x7b\n  " ++ first ++ ",\n  " ++ second ++ "\n\x7d" := by
    intro first second
    have inner : Style.document.lineBreak 1 = "\n  " := by decide
    have outer : Style.document.lineBreak 0 = "\n" := by decide
    have comma : Style.document.comma = "," := rfl
    simp [Style.object, Style.enclose, inner, outer, comma, String.append_assoc]
  have written : text .document (.record [(key, v), (other, w)]) =
      (objectMembers .document (writeEntries .document 1 [(.text key, v), (.text other, w)])).map
        (Style.document.object 0) := rfl
  rw [written, members, Except.map, braces]
  simp only [String.append_assoc]

private theorem Schema.exists_describeJson (s : Schema) : ∃ view,
    s.describeJson = .ok ("\x7b\n  " ++ "\"fingerprint\"" ++ ": " ++ Json.quoted s.fingerprint ++
      ",\n  " ++ "\"schema\"" ++ ": " ++ view ++ "\n\x7d") := by
  obtain ⟨v, hv, written⟩ := s.graph.exists_fingerprint_iff.mp ⟨_, s.fingerprint_eq⟩
  have unsorted : Json.Style.document.sorted = false := rfl
  obtain ⟨view, hview⟩ := Json.exists_write_of_strict rfl
    (fun sorted ↦ Bool.noConfusion (unsorted.symm.trans sorted)) 0 1 v written
  have fingerprint : Json.write .document 1 (.text s.fingerprint) =
      .ok (Json.quoted s.fingerprint) := rfl
  have key : Json.quoted "fingerprint" = "\"fingerprint\"" := by decide
  have other : Json.quoted "schema" = "\"schema\"" := by decide
  refine ⟨view, ?_⟩
  rw [describeJson, hv, ← key, ← other]
  exact Json.text_document_pair fingerprint hview

namespace CommandLine

open EntityGraph.Document

open Success (FailsOnly)

/-! ### Requests -/

section Arguments

variable {text : String} (plain : text.startsWith "-" = false)

include plain

private theorem Grammar.roleOf_eq_operand (g : Grammar) : g.roleOf text = .ok .operand := by
  simp only [roleOf, plain]
  rfl

/-- What does not start with a dash is an operand before others. -/
theorem Grammar.roles_operand (g : Grammar) {rest : List String} {others : List (String × Role)}
    (h : g.roles rest = .ok others) :
    g.roles (text :: rest) = .ok ((text, .operand) :: others) := by
  have other : text ≠ separatorText := by
    rintro rfl
    have dashed : "--".startsWith "-" = true := by simp
    exact Bool.false_ne_true (plain.symm.trans dashed)
  rw [roles, if_neg other, g.roleOf_eq_operand plain, h]
  rfl

/-- What does not start with a dash is an operand alone. -/
theorem Grammar.roles_one (g : Grammar) : g.roles [text] = .ok [(text, .operand)] :=
  g.roles_operand plain rfl

end Arguments

/-- The next operand is given with what belongs to it. -/
theorem Grammar.assign_operand {g : Grammar} {given found : Given} {text : String}
    {rest others : List (String × Role)} {texts : List String}
    (next : g.nextOperand given ((text, .operand) :: rest) = some (texts, others))
    (known : g.withOperand texts given = .ok found) :
    g.assign given ((text, .operand) :: rest) = g.assign found others := by
  rw [assign]
  · split
    · next found' others' h =>
      obtain ⟨rfl, rfl⟩ := Prod.mk.inj (Option.some.inj (h.symm.trans next))
      rw [known]
      rfl
    · next h => cases h.symm.trans next
  · intro h
    cases h
  · intro use h
    cases h

/-- A command takes its operand first. -/
theorem Grammar.assign_ofCommand (name path : String) (rest : List (String × Role)) :
    (ofCommand name).assign default ((path, .operand) :: rest) =
      (ofCommand name).assign ⟨[path], [], []⟩ (rest.dropWhile (·.2 = .separator)) :=
  assign_operand rfl rfl

/-- The option of a format is nothing that the tool knows before its commands. -/
private theorem roleOf_format : Grammar.tool.roleOf "--format" = .ok .strangeOption := by
  have names : Grammar.tool.optionNames = [("-h", .askHelp), ("--help", .askHelp)] := rfl
  have mark : splitMark "--format" = ("--format", none) := by simp [splitMark]
  have long : "--format".startsWith "--" = true := by simp
  have short : "-h".startsWith "--format" = false := by simp
  have help : "--help".startsWith "--format" = false := by simp
  have unknown : Grammar.tool.candidates "--format" = [] := by
    rw [Grammar.candidates, if_pos (show "--format".startsWith separatorText = true from long),
      mark, names]
    simp only [List.filterMap_cons, List.filterMap_nil, short, help]
    rfl
  have absent : Grammar.tool.optionNames.lookup "--format" = none := by simp [names]
  have number : isNegativeNumber "--format".toList = false := by decide
  have spaceless : "--format".contains ' ' = false := by simp
  have dashed : "--format".startsWith "-" = true := by simp
  have other : "--format" ≠ "-" := by decide
  simp only [Grammar.roleOf, mark, unknown, absent, number, spaceless, dashed, other,
    Option.bind_none]
  rfl

/-- The tool takes the name of a command with all that follows it. -/
theorem Grammar.read_tool {name : String} (known : (commands.map (·.1)).contains name = true)
    (named : name.startsWith "-" = false) {rest : List String} {others : List (String × Role)}
    (h : tool.roles rest = .ok others) :
    tool.read (name :: rest) = .ok ⟨name :: others.map (·.1), [], []⟩ := by
  have taken : tool.nextOperand default ((name, .operand) :: others) =
      some (name :: others.map (·.1), []) := rfl
  have given : tool.withOperand (name :: others.map (·.1)) default =
      .ok ⟨name :: others.map (·.1), [], []⟩ := by
    simp only [withOperand, tool]
    rw [if_pos known]
    rfl
  rw [read, roles_operand named tool h]
  simp only [Except.mapError, bind, Except.bind, assign_operand taken given, assign]
  rfl

section Requests

variable {path : String} (plain : path.startsWith "-" = false)

include plain

/-- A command with a path and nothing else asks for that command. -/
theorem Request.ofArguments_pair {name : String}
    (known : (Grammar.commands.map (·.1)).contains name = true)
    (named : name.startsWith "-" = false) :
    ofArguments [name, path] = .ok ⟨.ofName name [], path⟩ := by
  have line := Grammar.read_tool known named (Grammar.roles_one plain .tool)
  have given : (Grammar.ofCommand name).read [path] = .ok ⟨[path], [], []⟩ := by
    rw [Grammar.read, Grammar.roles_one plain]
    simp only [Except.mapError, bind, Except.bind, Grammar.assign_ofCommand, List.dropWhile_nil,
      Grammar.assign]
    rfl
  simp only [ofArguments, line, Except.mapError, bind, Except.bind, List.headD_cons,
    List.tail_cons, List.map_cons, List.map_nil, given]
  rfl

/-- A description may be asked for as JSON. -/
private theorem Request.ofArguments_describe :
    ofArguments ["describe", path, "--format", "json"] = .ok ⟨.describe .json, path⟩ := by
  have named : "describe".startsWith "-" = false := by simp
  have format : "json".startsWith "-" = false := by simp
  have extra : Grammar.tool.roles ["--format", "json"] =
      .ok [("--format", .strangeOption), ("json", .operand)] := by
    rw [Grammar.roles, if_neg (by decide), roleOf_format, Grammar.roles_one format]
    rfl
  have line := Grammar.read_tool (by decide) named (Grammar.roles_operand plain .tool extra)
  let chosen : List (String × Role) :=
    [("--format", .option ⟨DescriptionFormat.choice, "--format", false, none⟩), ("json", .operand)]
  have role : (Grammar.ofCommand "describe").roleOf "--format" =
      .ok (.option ⟨DescriptionFormat.choice, "--format", false, none⟩) := by
    have found : (Grammar.ofCommand "describe").optionNames.lookup "--format" =
        some DescriptionFormat.choice := rfl
    have dashed : "--format".startsWith "-" = true := by simp
    simp only [Grammar.roleOf, dashed, found]
    rfl
  have options : (Grammar.ofCommand "describe").roles ["--format", "json"] = .ok chosen := by
    rw [Grammar.roles, if_neg (by decide), role, Grammar.roles_one format]
    rfl
  have given : (Grammar.ofCommand "describe").read [path, "--format", "json"] =
      .ok ⟨[path], [("--format", "json")], []⟩ := by
    have json : Grammar.choose DescriptionFormat.choice "json" ⟨[path], [], []⟩ =
        .ok ⟨[path], [("--format", "json")], []⟩ := rfl
    have choosing : DescriptionFormat.choice.choices.isEmpty = false := rfl
    have behind : chosen.dropWhile (·.2 = .separator) = chosen := rfl
    rw [Grammar.read, Grammar.roles_operand plain _ options]
    simp only [Except.mapError, bind, Except.bind, Grammar.assign_ofCommand, behind]
    simp only [chosen, Grammar.assign, choosing, json, bind, Except.bind]
    rfl
  simp only [ofArguments, line, Except.mapError, bind, Except.bind, List.headD_cons,
    List.tail_cons, List.map_cons, List.map_nil, given]
  rfl

end Requests

/-! ### Runs -/

/-- The schema that a document compiles to on a host in an environment, or what stops it on the
way. -/
def compiledIn (host : Host) (yaml : Yaml.Library) (env : Environment) (path : String)
    (found : Except FileFault (List UInt8)) : Except Failure Schema := do
  let settings ← env.settings
  let _ ← settings.log.threshold
  (compileAt host yaml settings.compiler path found).result

/-- A failure that is a refusal. -/
def IsRefusal (f : Failure) : Prop := ∃ refusal, f = .refused refusal

/-- A refusal is one. -/
theorem isRefusal_raise {α : Type} (refusal : Refusal) :
    FailsOnly IsRefusal (refusal.raise : Except Failure α) :=
  .error ⟨refusal, rfl⟩

private theorem isRefusal_settings (env : Environment) : FailsOnly IsRefusal env.settings := by
  have compiler : FailsOnly IsRefusal env.compiler := by
    unfold Environment.compiler CompilerConfig.make
    split
    · exact isRefusal_raise _
    · exact .ok _
  have log : FailsOnly IsRefusal env.log := by
    refine FailsOnly.bind ?_ fun _ _ ↦ .ok _
    unfold LogFormat.read
    split
    · exact .ok _
    · split
      · exact .ok _
      · exact isRefusal_raise _
  exact compiler.bind fun _ _ ↦ log.bind fun _ _ ↦ .ok _

private theorem isRefusal_threshold (config : LogConfig) :
    FailsOnly IsRefusal config.threshold := by
  unfold LogConfig.threshold Threshold.toNumber
  split
  · exact .ok _
  · exact isRefusal_raise _
  · exact isRefusal_raise _

variable {host : Host} {yaml : Yaml.Library}

/-- A run answers with what the document compiles to, behind the lines of a log. -/
private theorem Request.exists_run_eq_afterLog (r : Request) (env : Environment) (time : String)
    (found : Except FileFault (List UInt8)) : ∃ lines, r.run host yaml env time found =
      (r.answer (compiledIn host yaml env r.path found)).afterLog lines := by
  have refused : ∀ f, IsRefusal f → Outcome.ofFailure f = (r.answer (.error f)).afterLog [] := by
    rintro _ ⟨refusal, rfl⟩
    unfold answer
    split <;> rfl
  cases hs : env.settings with
  | error f =>
    refine ⟨[], ?_⟩
    simp only [run, compiledIn, hs, bind, Except.bind]
    exact refused f (isRefusal_settings env f hs)
  | ok settings =>
    cases ht : settings.log.threshold with
    | error f =>
      refine ⟨[], ?_⟩
      simp only [run, compiledIn, hs, ht, bind, Except.bind]
      exact refused f (isRefusal_threshold settings.log f ht)
    | ok threshold =>
      let compiled := compileAt host yaml settings.compiler r.path found
      refine ⟨logLines settings.log threshold time compiled.log, ?_⟩
      simp only [run, compiledIn, hs, ht, bind, Except.bind]
      rfl

/-- A command line that asks for something is answered with what the document compiles to, behind
the lines of a log. -/
theorem exists_run_eq_afterLog {arguments : List String} {r : Request}
    (asks : Request.ofArguments arguments = .ok r) (env : Environment) (time : String)
    (read : Path → Except FileFault (List UInt8)) : ∃ lines, run host yaml arguments env time read =
      (r.answer (compiledIn host yaml env r.path (read (.ofString r.path)))).afterLog lines := by
  rw [run, asks]
  exact r.exists_run_eq_afterLog env time _

private theorem exists_validate_of_compiledIn {env : Environment} {path : String}
    {found : Except FileFault (List UInt8)} {s : Schema}
    (h : compiledIn host yaml env path found = .ok s) :
    ∃ findings, s.graph.validate = .ok findings := by
  simp only [compiledIn, Success.bind_eq_ok] at h
  obtain ⟨settings, -, _, -, h⟩ := h
  simp only [compileAt, Model.compile, Traced.result_bind_eq_ok] at h
  obtain ⟨model, -, _, -, h⟩ := h
  exact Schema.exists_validate_of_compile h

private theorem compiledIn_echoes (safe : yaml.IsSafe) (host host' : Host) (env : Environment)
    (path : String) (found : Except FileFault (List UInt8)) :
    Echoes host host' (compiledIn host yaml env path found)
      (compiledIn host' yaml env path found) := by
  refine (Echoes.same env.settings).bind fun settings _ ↦
    (Echoes.same settings.log.threshold).bind fun _ _ ↦ ?_
  simp only [compileAt, Traced.result_bind]
  refine (Echoes.same _).bind fun m hm ↦ ?_
  have native := isNative_of_load safe ((Traced.result_liftM _).symm.trans hm)
  exact Model.compile_echoes (host.copiesAlike_of_isNative host' native) settings.compiler

/-! ### Agreement -/

/-- What comes of asking for a verdict on a document, for its fingerprint and for its description,
each on a host, agrees with what the document compiles to. -/
structure Agree (host₁ host₂ host₃ : Host) (compiled : Host → Except Failure Schema)
    (validated printed described : Outcome) : Prop where
  /-- A document is valid exactly if both other requests are answered. -/
  valid : validated.ending = .exit 0 ↔ printed.ending = .finished ∧ described.ending = .finished
  /-- Both then show the fingerprint of the schema, which is one on all hosts. -/
  shown : validated.ending = .exit 0 → ∃ s view, (∀ host, compiled host = .ok s) ∧
    printed.output = s.fingerprint ++ "\n" ∧
    described.output = "\x7b\n  " ++ "\"fingerprint\"" ++ ": " ++ Json.quoted s.fingerprint ++
      ",\n  " ++ "\"schema\"" ++ ": " ++ view ++ "\n\x7d" ++ "\n"
  /-- A document is invalid exactly if both other requests end with a complaint. -/
  invalid : validated.ending = .exit 1 ↔ printed.ending = .exit 1 ∧ described.ending = .exit 1
  /-- So it is with errors that are reported and with files that cannot be read. -/
  complained : validated.ending = .exit 1 ↔
    (∃ r, compiled host₁ = .error (.reported r)) ∨ ∃ fault, compiled host₁ = .error (.file fault)
  /-- Of an error that is reported all say the same, up to words of their hosts. -/
  said : ∀ r, compiled host₁ = .error (.reported r) →
    validated.output = "Schema validation failed:\n" ++ ("  - " ++ r.text ++ "\n") ∧
    (∃ r₂, r.Echoes host₁ host₂ r₂ ∧ ∃ log,
      printed.errors = log ++ ("Error: " ++ r₂.text ++ "\n")) ∧
    ∃ r₃, r.Echoes host₁ host₃ r₃ ∧ ∃ log,
      described.errors = log ++ ("Error: " ++ r₃.text ++ "\n")
  /-- Otherwise one failure ends them all. -/
  escaped : validated.ending ≠ .exit 0 → validated.ending ≠ .exit 1 →
    ∃ f, (∀ host, compiled host = .error f) ∧
      validated.ending = .failed f ∧ printed.ending = .failed f ∧ described.ending = .failed f

/-- A verdict of invalidity says why on a line. -/
theorem Verdict.output_outcome_one (text : String) : (outcome ⟨false, [text]⟩).output =
    "Schema validation failed:\n" ++ ("  - " ++ text ++ "\n") := by
  have line : String.join ["  - " ++ text ++ "\n"] = "  - " ++ text ++ "\n" := by simp
  show "Schema validation failed:\n" ++ String.join ["  - " ++ text ++ "\n"] = _
  rw [line]

/-- The answers to the three requests agree, whatever is logged before them. -/
theorem agree_answer (path : String) {host₁ : Host} (host₂ host₃ : Host)
    {compiled : Host → Except Failure Schema}
    (echoes : ∀ host, Echoes host₁ host (compiled host₁) (compiled host))
    (valid : ∀ s, compiled host₁ = .ok s → ∃ findings, s.graph.validate = .ok findings)
    (lines₁ lines₂ lines₃ : List String) :
    Agree host₁ host₂ host₃ compiled
      ((Request.answer ⟨.validate, path⟩ (compiled host₁)).afterLog lines₁)
      ((Request.answer ⟨.fingerprint, path⟩ (compiled host₂)).afterLog lines₂)
      ((Request.answer ⟨.describe .json, path⟩ (compiled host₃)).afterLog lines₃) := by
  have same : (∀ r, compiled host₁ ≠ .error (.reported r)) →
      ∀ host, compiled host = compiled host₁ := fun unreported host ↦
    (echoes host).eq_of_unreported unreported
  cases h : compiled host₁ with
  | ok s =>
    rw [h] at same
    have same := same nofun
    obtain ⟨findings, hfindings⟩ := valid s h
    obtain ⟨view, hview⟩ := s.exists_describeJson
    have validated : Request.answer ⟨.validate, path⟩ (.ok s) =
        Verdict.outcome ⟨true, findings⟩ := by
      simp only [Request.answer, Verdict.ofResult, hfindings]
      rfl
    have described : Request.answer ⟨.describe .json, path⟩ (.ok s) = .ofText s.describeJson := rfl
    rw [same host₂, same host₃, validated, described, hview]
    exact {
      valid := iff_of_true rfl ⟨rfl, rfl⟩
      shown := fun _ ↦ ⟨s, view, same, rfl, rfl⟩
      invalid := iff_of_false nofun nofun
      complained := iff_of_false nofun (by rw [h]; rintro (⟨_, ⟨⟩⟩ | ⟨_, ⟨⟩⟩))
      said := by rw [h]; nofun
      escaped := fun h ↦ absurd rfl h }
  | error f =>
    cases f with
    | reported r =>
      obtain ⟨r₂, h₂, echo₂⟩ := (h ▸ echoes host₂).exists_eq_reported
      obtain ⟨r₃, h₃, echo₃⟩ := (h ▸ echoes host₃).exists_eq_reported
      rw [h₂, h₃]
      exact {
        valid := iff_of_false nofun nofun
        shown := nofun
        invalid := iff_of_true rfl ⟨rfl, rfl⟩
        complained := iff_of_true rfl (.inl ⟨r, h⟩)
        said := by
          intro r' h'
          obtain rfl := Failure.reported.inj (Except.error.inj (h.symm.trans h'))
          exact ⟨Verdict.output_outcome_one r.text, ⟨r₂, echo₂, _, rfl⟩, ⟨r₃, echo₃, _, rfl⟩⟩
        escaped := fun _ h ↦ absurd rfl h }
    | file fault =>
      rw [h] at same
      have same := same nofun
      rw [same host₂, same host₃]
      exact {
        valid := iff_of_false nofun nofun
        shown := nofun
        invalid := iff_of_true rfl ⟨rfl, rfl⟩
        complained := iff_of_true rfl (.inr ⟨fault, h⟩)
        said := by rw [h]; nofun
        escaped := fun _ h ↦ absurd rfl h }
    | _ =>
      rw [h] at same
      have same := same nofun
      rw [same host₂, same host₃]
      exact {
        valid := iff_of_false nofun nofun
        shown := nofun
        invalid := iff_of_false nofun nofun
        complained := iff_of_false nofun (by rw [h]; rintro (⟨_, ⟨⟩⟩ | ⟨_, ⟨⟩⟩))
        said := by rw [h]; nofun
        escaped := fun _ _ ↦ ⟨_, same, rfl, rfl, rfl⟩ }

/-- A note has a name. -/
theorem truthy_note : (Value.text "Note").truthy = true := by decide

/-- The data of a note have a name. -/
theorem truthy_data : (Value.text "data").truthy = true := by decide

/-- The version of the examples is positive. -/
theorem isPositive_one : (Value.int 1).atMostZero = .ok false := rfl

/-- Notes of some attributes. -/
def plainEntity (attributes : List AttributeDecl)
    (distinct : DistinctNames (propertyNames attributes [])) : EntityDecl :=
  ⟨.text "Note", attributes, [], false, .null, [], truthy_note, distinct⟩

/-- A list that contains itself. -/
def ring : Value := .seq (.node 0 1) .list [.loop (.node 0 1) .list]

/-- An attribute whose default contains itself. -/
def ringAttribute : AttributeDecl :=
  ⟨.text "data", .transformable, true, ring, false, false, truthy_data,
    ScalarType.checkDefault_transformable _ ring⟩

/-- The properties of notes with that attribute have one name. -/
theorem distinct_ringAttribute : DistinctNames (propertyNames [ringAttribute] []) :=
  ⟨by simp [propertyNames, ringAttribute], by simp [propertyNames]⟩

/-- Notes without attributes have no names of properties. -/
theorem distinct_nil : DistinctNames (propertyNames [] []) :=
  ⟨by simp [propertyNames], by simp [propertyNames]⟩

/-- A document of one entity, with an attribute whose default contains itself. -/
def ringDocument : Value :=
  .record [("entities", .list [.record [("name", .text "Note"), ("properties", .list [.record
    [("attribute", .record [("name", .text "data"), ("type", .text "transformable"),
      ("default", ring)])]])]])]

/-- The YAML text of that document. -/
def ringText : String :=
  "entities: [\x7bname: Note, properties: [\x7battribute: " ++
    "\x7bname: data, type: transformable, default: &x [*x]\x7d\x7d]\x7d]\n"

/-- A JSON document of one entity. -/
def noteText : String := "\x7b\"entities\": [\x7b\"name\": \"Note\"\x7d]\x7d"

/-- What a library for YAML reads from the text of the example. -/
def ringLibrary : Yaml.Library where
  write v := .error (.notWritable v.typeName)
  read text := if text = ringText then .ok ringDocument else .error (.refused "no example")

/-- The two documents as files. -/
def exampleFiles (path : Path) : Except FileFault (List UInt8) :=
  if path.text = "note.json" then .ok (Bytes.Utf8.encode noteText.toList)
  else if path.text = "ring.yaml" then .ok (Bytes.Utf8.encode ringText.toList)
  else .error (.missing path.text)

/-- A host on which the stack overflows while a class is looked at. -/
def deepHost : Host :=
  { (default : Host) with overflow := "maximum recursion depth exceeded in __instancecheck__" }

private theorem isSafe_ringLibrary : ringLibrary.IsSafe := by
  intro text v h
  simp only [ringLibrary] at h
  split at h
  · obtain rfl := Except.ok.inj h
    simp [ringDocument, ring, Value.record, Value.list, Value.text, Value.Every,
      Value.EveryMember, Value.EveryEntry, Value.IsNative]
  · cases h

/-- A file whose path holds no zero is loaded by the bytes in it. -/
theorem load_of_ok {yaml : Yaml.Library} {path : Path} {bytes : List UInt8}
    (plain : path.text.contains '\x00' = false) :
    load yaml path (.ok bytes) = readBytes yaml path bytes := by
  rw [load, if_neg (by simp [plain])]
  rfl

/-- The model of the document whose default contains itself. -/
def ringModel : Model :=
  ⟨.text "Model", .int 1, [plainEntity [ringAttribute] distinct_ringAttribute], isPositive_one⟩

/-- The model of the other document. -/
def noteModel : Model :=
  ⟨.text "Model", .int 1, [plainEntity [] distinct_nil], isPositive_one⟩

private theorem load_ring : load ringLibrary (.ofString "ring.yaml")
    (exampleFiles (.ofString "ring.yaml")) =
    .ok ringModel := by
  have plain : (Path.ofString "ring.yaml").text.contains '\x00' = false := by
    show "ring.yaml".contains '\x00' = false
    cbv
  have found : exampleFiles (.ofString "ring.yaml") =
      .ok (Bytes.Utf8.encode ringText.toList) := rfl
  have characters : charactersOf (.ofString "ring.yaml") (Bytes.Utf8.encode ringText.toList) =
      .ok ringText.toList := rfl
  have yaml : readYaml ringLibrary ringText = read ringDocument := rfl
  have model : read ringDocument = .ok ringModel := by cbv
  have suffix : [".yaml", ".yml"].contains (Path.ofString "ring.yaml").suffix = true := rfl
  rw [found, load_of_ok plain, readBytes, characters, ← model, ← yaml]
  simp only [bind, Except.bind, suffix, if_true, String.ofList_toList]

/-- The other file is read as its model. -/
private theorem load_note (yaml : Yaml.Library) :
    load yaml (.ofString "note.json") (exampleFiles (.ofString "note.json")) = .ok noteModel := by
  have plain : (Path.ofString "note.json").text.contains '\x00' = false := by
    show "note.json".contains '\x00' = false
    cbv
  have found : exampleFiles (.ofString "note.json") =
      .ok (Bytes.Utf8.encode noteText.toList) := rfl
  have characters : charactersOf (.ofString "note.json") (Bytes.Utf8.encode noteText.toList) =
      .ok noteText.toList := rfl
  have value : Json.read noteText.toList =
      .ok (.record [("entities", .list [.record [("name", .text "Note")]])]) := by cbv
  have model : read (.record [("entities", .list [.record [("name", .text "Note")]])]) =
      .ok noteModel := by cbv
  have other : [".yaml", ".yml"].contains (Path.ofString "note.json").suffix = false := rfl
  have suffix : (Path.ofString "note.json").suffix = ".json" := rfl
  rw [found, load_of_ok plain, readBytes, characters]
  simp only [bind, Except.bind, suffix, if_true, String.ofList_toList, readJson, value]
  exact model

/-- Where nothing is set, a file that is read as a model compiles as the model does. -/
theorem compiledIn_default (host : Host) {yaml : Yaml.Library} {path : String}
    {found : Except FileFault (List UInt8)} {m : Model}
    (loaded : load yaml (.ofString path) found = .ok m) :
    compiledIn host yaml [] path found = (m.compile host default).result := by
  have settings : Environment.settings [] = .ok ⟨default, default⟩ := rfl
  have threshold : (default : LogConfig).threshold = .ok 20 := rfl
  simp only [compiledIn, settings, threshold, bind, Except.bind]
  rw [compileAt, loaded, Traced.result_bind]
  rfl

/-- The document whose default contains itself has no schema, in the words of each host. -/
theorem exists_compiledIn_ring (host : Host) : ∃ r,
    compiledIn host ringLibrary [] "ring.yaml" (exampleFiles (.ofString "ring.yaml")) =
      .error (.reported r) ∧
    r.text = "Schema 'Model' cannot be serialized: " ++ host.overflow := by
  obtain ⟨-, t, ht⟩ := (Value.isShowable_int_iff 1).mpr
    (Number.Integer.isTooLong_of_le_one (n := 1) le_rfl)
  have version : ringModel.version.display = .ok t := ht
  have failed : (ringModel.compile host default).result =
      .error (SchemaError.unserializable (.text "Model") host.overflow).failure := by
    rw [Model.compile, version]
    rfl
  have message : (SchemaError.unserializable (.text "Model") host.overflow).message =
      .ok ("Schema 'Model' cannot be serialized: " ++ host.overflow) := rfl
  rw [compiledIn_default host load_ring, failed, SchemaError.failure_of_ok message]
  exact ⟨_, rfl, rfl⟩

/-- The other document has a schema. -/
private theorem exists_compiledIn_note (host : Host) (yaml : Yaml.Library) : ∃ s,
    compiledIn host yaml [] "note.json" (exampleFiles (.ofString "note.json")) = .ok s := by
  have shown := (Value.isShowable_int_iff 1).mpr
    (Number.Integer.isTooLong_of_le_one (n := 1) le_rfl)
  have texts : ∀ e ∈ noteModel.entities, e.IsTextual := by
    intro e he
    obtain rfl := List.mem_singleton.mp he
    exact ⟨⟨⟨_, rfl⟩, by simp [plainEntity], by simp [plainEntity],
      by simp [plainEntity]⟩, .inl rfl⟩
  have coherent : Coherent noteModel.entities := by
    refine ⟨by simp [noteModel], ?_, ?_, ?_, ?_⟩
    · simp [noteModel, plainEntity, EntityDecl.NamesUnique]
    · simp [noteModel, plainEntity]
    · simp [noteModel, plainEntity]
    · simp [Links.OneToOne, Links.Joined, Links.Declares, Links.declared, noteModel, plainEntity]
  have portable : ∀ e ∈ noteModel.entities, ∀ a ∈ e.attributes, a.IsPortable host e.name := by
    simp [noteModel, plainEntity]
  have lenient : (default : CompilerConfig).isStrict = false := rfl
  obtain ⟨s, hs⟩ := (Schema.exists_compile_eq_ok texts lenient).mpr
    ⟨coherent, portable, Value.isShowable_text "Model", shown⟩
  obtain ⟨-, t, ht⟩ := shown
  have version : noteModel.version.display = .ok t := ht
  refine ⟨s, ?_⟩
  rw [compiledIn_default host (load_note yaml), Model.compile, version, ← hs]
  rfl

end CommandLine

end EntityGraph
