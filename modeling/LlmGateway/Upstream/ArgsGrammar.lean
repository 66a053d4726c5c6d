import LlmGateway.Upstream.ArgsGate

/-!
# The grammar of the arguments of a request

* `Role`, `Reading`, `Grammatical` — the grammar: what every token of a command line stands for;
* `Piece`, `skim` — the tokens as the gate comes upon them, those behind an inherited name set aside.
-/

namespace LlmGateway.Upstream

open Lib Lib.Utf16
open Workspace (CliType)

/-! ## The grammar -/

/-- The value is in the list, and of the pattern, where there are such. -/
def allowed (f : CliFlagContract) (v : Text) : Bool :=
  (f.values.all fun values => values.contains v) && f.pattern.all fun pattern => pattern v

def fits : CliFlagArity → ℕ → Prop
  | .none, n => n = 0
  | .one, n => n = 1
  | .optional, n => n ≤ 1
  | .variadic, n => 1 ≤ n

/-- The values that a flag takes. -/
structure Takes (f : CliFlagContract) (values : List Text) : Prop where
  arity : fits f.arity values.length
  allowed : ∀ v ∈ values, allowed f v = true
  hyphen : ∀ v ∈ values, startsWithHyphen v = true → f.allowLeadingHyphenValue = true

/-- What a token stands for, with the values behind it. -/
inductive Role where
  | flag (name : Text) (values : List Text)
  | inline (name value : Text)
  | positional (token : Text)

def Role.tokens : Role → List Text
  | .flag name values => name :: values
  | .inline name value => [name ++ 61 :: value]
  | .positional token => [token]

def Role.names : Role → List Text
  | .flag name _ => [name]
  | .inline name _ => [name]
  | .positional _ => []

def Role.positionals : Role → List Text
  | .positional token => [token]
  | _ => []

/-- The flags that a context does not take. -/
def forbiddenFlags (cli : CliType) (resumeContext : Bool) : List Text :=
  if resumeContext then (UPSTREAM_CLI_CONTRACTS cli).resumeForbiddenFlags else (UPSTREAM_CLI_CONTRACTS cli).resumeOnlyFlags

section
variable (surfaceFlags : SurfaceFlags) (cli : CliType) (passthrough : Passthrough) (resumeContext : Bool)

/-- A flag that is declared, or vouched for; without a hyphen, or as the marker of a prompt on stdin, a token is no such flag. -/
def knownFlag (name : Text) : Option CliFlagContract :=
  (declaredFlag (UPSTREAM_CLI_CONTRACTS cli) name).or
    (if startsWithHyphen name && (UPSTREAM_CLI_CONTRACTS cli).stdinPromptMarker != some name then
      undeclaredFlagContract surfaceFlags cli name passthrough
    else none)

/-- The name of a flag has no `=`: a token that has one carries its value. -/
def Role.WellFormed : Role → Prop
  | .flag name values => name ≠ text "--" ∧ 61 ∉ name ∧ ∃ f, knownFlag surfaceFlags cli passthrough name = some f ∧ Takes f values
  | .inline name value =>
    61 ∉ name ∧ ∃ f, knownFlag surfaceFlags cli passthrough name = some f ∧ f.inlineValue = true ∧ allowed f value = true
  | .positional token => startsWithHyphen token = false ∨ (UPSTREAM_CLI_CONTRACTS cli).stdinPromptMarker = some token

/-- The roles of the tokens, and the prompt behind `--`. -/
structure Reading where
  roles : List Role
  prompt : Option Text

def promptTokens : Option Text → List Text
  | none => []
  | some prompt => [text "--", prompt]

def Reading.tokens (r : Reading) : List Text := r.roles.flatMap Role.tokens ++ promptTokens r.prompt

def Reading.names (r : Reading) : List Text := r.roles.flatMap Role.names

/-- What the flags and the prompt of a command line keep to. -/
structure Kept (names : List Text) (prompt : Bool) : Prop where
  permitted : ∀ name ∈ names, name ∉ forbiddenFlags cli resumeContext
  prompt : prompt = true → (UPSTREAM_CLI_CONTRACTS cli).allowsEndOfOptionsPrompt = true
  required : ∀ group ∈ (UPSTREAM_CLI_CONTRACTS cli).requiredRequestFlagGroups, ∃ name ∈ group, name ∈ names
  exclusive : ∀ group ∈ (UPSTREAM_CLI_CONTRACTS cli).mutuallyExclusiveFlagGroups,
    (group.filter fun name => names.contains name).length ≤ 1

structure Reading.Good (r : Reading) : Prop where
  wellFormed : ∀ role ∈ r.roles, role.WellFormed surfaceFlags cli passthrough
  positionals : (r.roles.flatMap Role.positionals).length ≤ maxPositionals cli resumeContext
  kept : Kept cli resumeContext r.names r.prompt.isSome

end

/-- The command words in front of the other tokens; the word for resuming is always one. -/
inductive Behind (cli : CliType) : List Text → Bool → List Text → Prop where
  | plain {args : List Text} (h : (UPSTREAM_CLI_CONTRACTS cli).command = none) : Behind cli args false args
  | first {c : Command} {args : List Text} (h : (UPSTREAM_CLI_CONTRACTS cli).command = some c)
    (hnext : args.head? ≠ c.optionalSecondArg) : Behind cli (c.requiredFirstArg :: args) false args
  | resume {c : Command} {second : Text} {args : List Text} (h : (UPSTREAM_CLI_CONTRACTS cli).command = some c)
    (hsecond : c.optionalSecondArg = some second) : Behind cli (c.requiredFirstArg :: second :: args) true args

/-- The command line has a reading. -/
def Grammatical (surfaceFlags : SurfaceFlags) (cli : CliType) (args : List Text) (passthrough : Passthrough) : Prop :=
  ∃ (resumeContext : Bool) (r : Reading),
    Behind cli args resumeContext r.tokens ∧ r.Good surfaceFlags cli passthrough resumeContext

/-! ## The table -/

theorem flags_table (cli : CliType) : ∀ f ∈ (UPSTREAM_CLI_CONTRACTS cli).flags,
    startsWithHyphen f.1 = true ∧ f.1 ≠ text "--" ∧ 61 ∉ f.1 ∧ (UPSTREAM_CLI_CONTRACTS cli).stdinPromptMarker ≠ some f.1 ∧
      (f.2.allowLeadingHyphenValue = true → f.2.arity = .one) ∧
      (f.2.inlineValue = true → ∀ resumeContext, f.1 ∉ forbiddenFlags cli resumeContext) := by
  cases cli <;> decide +kernel

theorem lists_table (cli : CliType) :
    (∀ resumeContext, ∀ name ∈ forbiddenFlags cli resumeContext, startsWithHyphen name = true) ∧
      (∀ group ∈ (UPSTREAM_CLI_CONTRACTS cli).requiredRequestFlagGroups, ∀ name ∈ group, startsWithHyphen name = true) ∧
      ∀ group ∈ (UPSTREAM_CLI_CONTRACTS cli).mutuallyExclusiveFlagGroups, ∀ name ∈ group, startsWithHyphen name = true := by
  cases cli <;> decide +kernel

theorem marker_table (cli : CliType) : ∀ marker ∈ (UPSTREAM_CLI_CONTRACTS cli).stdinPromptMarker,
    startsWithHyphen marker = true ∧ marker ≠ text "--" ∧ 61 ∉ marker := by
  cases cli <;> decide +kernel

/-- Where flags may be followed by more values or fewer, no token is positional. -/
theorem arity_table (cli : CliType) :
    (∀ f ∈ (UPSTREAM_CLI_CONTRACTS cli).flags, f.2.arity = .none ∨ f.2.arity = .one) ∨
      ∀ resumeContext, maxPositionals cli resumeContext = 0 := by
  cases cli <;> decide +kernel

theorem command_table (cli : CliType) : ∀ c, (UPSTREAM_CLI_CONTRACTS cli).command = some c →
    ∃ second, c.optionalSecondArg = some second := by
  intro c hc
  cases cli <;> cases hc
  exact ⟨_, rfl⟩

theorem objectPrototype_table : ∀ name ∈ objectPrototype, startsWithHyphen name = false ∧ 61 ∉ name := by
  decide +kernel

theorem mem_flags {cli : CliType} {name : Text} {f : CliFlagContract}
    (h : declaredFlag (UPSTREAM_CLI_CONTRACTS cli) name = some f) : (name, f) ∈ (UPSTREAM_CLI_CONTRACTS cli).flags := by
  obtain ⟨⟨n, g⟩, hfind, rfl⟩ := Option.map_eq_some_iff.1 h
  have hname := List.find?_some hfind
  rw [beq_iff_eq] at hname
  rw [← hname]
  exact List.mem_of_find?_eq_some hfind

theorem declaredFlag_eq_none {cli : CliType} {name : Text} (h : startsWithHyphen name = false) :
    declaredFlag (UPSTREAM_CLI_CONTRACTS cli) name = none := by
  cases hf : declaredFlag (UPSTREAM_CLI_CONTRACTS cli) name with
  | none => rfl
  | some f =>
    have hhyphen := (flags_table cli _ (mem_flags hf)).1
    rw [h] at hhyphen
    cases hhyphen

section
variable {surfaceFlags : SurfaceFlags} {cli : CliType} {passthrough : Passthrough} {resumeContext : Bool}

theorem arity_undeclared {name : Text} {f : CliFlagContract}
    (h : undeclaredFlagContract surfaceFlags cli name passthrough = some f) :
    (f.arity = .none ∨ f.arity = .one) ∧ f.inlineValue = false ∧ f.allowLeadingHyphenValue = false := by
  unfold undeclaredFlagContract at h
  split at h
  · cases h
    exact ⟨.inl rfl, rfl, rfl⟩
  · cases h
    exact ⟨.inr rfl, rfl, rfl⟩
  · obtain ⟨surfaced, -, rfl⟩ := Option.map_eq_some_iff.1 h
    refine ⟨?_, rfl, rfl⟩
    show surfacedArity surfaced.arity = .none ∨ surfacedArity surfaced.arity = .one
    unfold surfacedArity
    split
    · exact .inr rfl
    · exact .inl rfl

/-- Flags that are known begin with a hyphen, and are no marker. -/
theorem known_cases {name : Text} {f : CliFlagContract} (h : knownFlag surfaceFlags cli passthrough name = some f) :
    startsWithHyphen name = true ∧ (UPSTREAM_CLI_CONTRACTS cli).stdinPromptMarker ≠ some name ∧
      (f.allowLeadingHyphenValue = true → f.arity = .one) ∧
      (f.inlineValue = true → ∀ resumeContext, name ∉ forbiddenFlags cli resumeContext) ∧
      (f.arity = .none ∨ f.arity = .one ∨ ∀ resumeContext, maxPositionals cli resumeContext = 0) := by
  unfold knownFlag at h
  cases hdeclared : declaredFlag (UPSTREAM_CLI_CONTRACTS cli) name with
  | some g =>
    rw [hdeclared, Option.some_or] at h
    cases h
    have hmem := mem_flags hdeclared
    obtain ⟨hhyphen, -, -, hmarker, hallow, hinline⟩ := flags_table cli _ hmem
    refine ⟨hhyphen, hmarker, hallow, hinline, ?_⟩
    rcases arity_table cli with harity | hmax
    · exact (harity _ hmem).imp_right .inl
    · exact .inr (.inr hmax)
  | none =>
    rw [hdeclared, Option.none_or] at h
    split_ifs at h with hname
    rw [Bool.and_eq_true, bne_iff_ne] at hname
    obtain ⟨harity, hinline, hallow⟩ := arity_undeclared h
    refine ⟨hname.1, hname.2, fun ht => ?_, fun ht => ?_, harity.imp_right .inl⟩
    · rw [hallow] at ht
      cases ht
    · rw [hinline] at ht
      cases ht

/-! ## Tokens -/

theorem splitEquals_plain {arg : Text} (h : 61 ∉ arg) : splitEquals arg = (arg, none) := by
  have hdrop : arg.dropWhile (· != 61) = [] := by
    rw [List.dropWhile_eq_nil_iff]
    intro u hu
    rw [bne_iff_ne]
    rintro rfl
    exact h hu
  unfold splitEquals
  rw [hdrop]
  cases arg.takeWhile (· != 61) <;> rfl

theorem splitEquals_inline {name value : Text} (h : 61 ∉ name) (hne : name ≠ []) :
    splitEquals (name ++ 61 :: value) = (name, some value) := by
  have hall : ∀ u ∈ name, (u != 61) = true := by
    intro u hu
    rw [bne_iff_ne]
    rintro rfl
    exact h hu
  unfold splitEquals
  rw [List.takeWhile_append_of_pos hall, List.dropWhile_append_of_pos hall, List.takeWhile_cons_of_neg (by decide),
    List.dropWhile_cons_of_neg (by decide), List.append_nil]
  cases name with
  | nil => exact absurd rfl hne
  | cons c name => rfl

/-- Where a token has a value behind `=`, and where it is a name. -/
theorem splitEquals_cases (arg : Text) :
    (∃ value, splitEquals arg = ((splitEquals arg).1, some value) ∧ arg = (splitEquals arg).1 ++ 61 :: value ∧
        61 ∉ (splitEquals arg).1 ∧ (splitEquals arg).1 ≠ []) ∨
      splitEquals arg = (arg, none) := by
  unfold splitEquals
  split
  · rename_i c name u value htake hdrop
    have hu : u = 61 := by
      have hhead := List.head?_dropWhile_not (· != 61) arg
      rw [hdrop] at hhead
      simpa using hhead
    refine .inl ⟨value, rfl, ?_, ?_, List.cons_ne_nil _ _⟩
    · rw [← hu, ← htake, ← hdrop, List.takeWhile_append_dropWhile]
    · rw [← htake]
      intro hmem
      have hne := List.mem_takeWhile_imp hmem
      exact absurd hne (by decide)
  · exact .inr rfl

/-! ## Tokens as the gate comes upon them -/

/-- A role, or an inherited name with the tokens behind it. -/
inductive Piece where
  | role (r : Role)
  | setAside (token : Text) (following : List Text)

def Piece.tokens : Piece → List Text
  | .role r => r.tokens
  | .setAside token following => token :: following

/-- The names of flags in it. -/
def Piece.names : Piece → List Text
  | .role r => r.names
  | .setAside _ _ => []

def Piece.positionals : Piece → List Text
  | .role r => r.positionals
  | .setAside _ _ => []

/-- The names that the gate takes for flags in it. -/
def Piece.present : Piece → List Text
  | .role r => r.names
  | .setAside token _ => [token]

/-- The tokens that no role is given to. -/
def Piece.aside : Piece → List Text
  | .role _ => []
  | .setAside token following => token :: following

/-- An inherited name passes where values stand behind it; `constructor` does not. -/
def Piece.Served : Piece → Prop
  | .role _ => True
  | .setAside token following => following ≠ [] ∧ token ≠ text "constructor"

end

/-- The values that a flag takes of the tokens behind it. -/
def takeValues (f : CliFlagContract) (rest : List Text) : Option (List Text) :=
  match f.arity with
  | .none => some []
  | .one =>
    match rest with
    | [] => none
    | value :: _ =>
      if (f.allowLeadingHyphenValue || !startsWithHyphen value) && allowed f value then some [value] else none
  | .optional =>
    match rest with
    | [] => some []
    | value :: _ => if startsWithHyphen value then some [] else if allowed f value then some [value] else none
  | .variadic =>
    match rest.takeWhile fun t => !startsWithHyphen t with
    | [] => none
    | values => if values.all (allowed f) then some values else none

/-- The role of a flag, and the number of tokens behind it that belong to it. -/
def takeFlag (f : CliFlagContract) (name : Text) (inline : Option Text) (rest : List Text) : Option (Role × ℕ) :=
  match inline with
  | some value => if f.inlineValue && allowed f value then some (.inline name value, 0) else none
  | none => (takeValues f rest).map fun values => (.flag name values, values.length)

section
variable (surfaceFlags : SurfaceFlags) (cli : CliType) (passthrough : Passthrough)

def pieceAt (arg : Text) (rest : List Text) : Option (Piece × ℕ) :=
  let (name, inline) := splitEquals arg
  match lookup (UPSTREAM_CLI_CONTRACTS cli) name with
  | some (.flag f) => (takeFlag f name inline rest).map fun r => (.role r.1, r.2)
  | some (.inherited _) =>
    let following := if inline.isSome then [] else rest.takeWhile fun t => !startsWithHyphen t
    some (.setAside arg following, following.length)
  | none =>
    if (UPSTREAM_CLI_CONTRACTS cli).stdinPromptMarker = some arg ∨ !startsWithHyphen arg then some (.role (.positional arg), 0)
    else
      (undeclaredFlagContract surfaceFlags cli name passthrough).bind fun f =>
        (takeFlag f name inline rest).map fun r => (.role r.1, r.2)

/-- The pieces in front of `--`, and the tokens behind it. -/
def skim : List Text → Option (List Piece × Option (List Text))
  | [] => some ([], none)
  | arg :: rest =>
    if arg = text "--" then some ([], some rest)
    else
      match pieceAt surfaceFlags cli passthrough arg rest with
      | none => none
      | some (piece, n) => (skim (rest.drop n)).map fun r => (piece :: r.1, r.2)
termination_by args => args.length
decreasing_by
  rw [List.length_drop, List.length_cons]
  omega

end

/-! ## Values -/

section
variable {surfaceFlags : SurfaceFlags} {cli : CliType} {passthrough : Passthrough} {resumeContext : Bool}

/-- A flag has no objection to a value exactly if the value is allowed. -/
theorem validateFlagValue_flag (cli : CliType) (arg : Text) (f : CliFlagContract) (value : Text) (index : Option ℕ) :
    ∃ violations, validateFlagValue cli arg (.flag f) value index = some violations ∧
      (violations = [] ↔ allowed f value = true) := by
  refine ⟨_, rfl, ?_⟩
  unfold allowed
  rw [List.append_eq_nil_iff, Bool.and_eq_true]
  cases hvalues : f.values <;> cases hpattern : f.pattern <;> simp

theorem validateFlagValues_flag (arg : Text) (f : CliFlagContract) (values : List Text) : ∀ index,
    ∃ violations, validateFlagValues cli arg (.flag f) index values = some violations ∧
      (violations = [] ↔ values.all (allowed f) = true) := by
  induction values with
  | nil => exact fun _ => ⟨[], rfl, by simp⟩
  | cons value values ih =>
    intro index
    obtain ⟨first, hfirst, hallowed⟩ := validateFlagValue_flag cli arg f value (some index)
    obtain ⟨more, hmore, hall⟩ := ih (index + 1)
    refine ⟨first ++ more, ?_, ?_⟩
    · rw [validateFlagValues, hfirst, Option.bind_some, hmore, Option.map_some]
    · rw [List.append_eq_nil_iff, hallowed, hall, List.all_cons, Bool.and_eq_true]

/-- An inherited name has no objection to any value, unless it throws. -/
theorem validateFlagValues_inherited (arg name : Text) (values : List Text) (hne : values ≠ []) : ∀ index,
    validateFlagValues cli arg (.inherited name) index values = if name = text "constructor" then none else some [] := by
  induction values with
  | nil => exact absurd rfl hne
  | cons value values ih =>
    intro index
    rw [validateFlagValues, validateFlagValue]
    split_ifs with hname
    · rfl
    · rw [Option.bind_some]
      cases values with
      | nil => rfl
      | cons v vs =>
        rw [ih (List.cons_ne_nil _ _), if_neg hname]
        rfl

/-! ## Scans without a violation -/

theorem Scan.report_nil (s : Scan) : s.report [] = s := by
  unfold Scan.report
  rw [List.append_nil]

theorem Scan.clean_report {s : Scan} {violations : List ContractViolation} :
    (s.report violations).violations = [] ↔ s.violations = [] ∧ violations = [] := by
  show s.violations ++ violations = [] ↔ _
  rw [List.append_eq_nil_iff]

theorem resumeViolations_eq_nil (name : Text) (i : ℕ) :
    resumeViolations cli resumeContext name i = [] ↔ name ∉ forbiddenFlags cli resumeContext := by
  unfold resumeViolations forbiddenFlags
  cases resumeContext <;> simp

/-- A report is clean exactly if nothing is reported; then the scan is as before. -/
theorem clean_map {s s' : Scan} {n k : ℕ} {b : Prop} {r : Option (List ContractViolation)}
    (hr : ∃ violations, r = some violations ∧ (violations = [] ↔ b)) :
    ((r.map fun violations => (s.report violations, k)) = some (s', n) ∧ s'.violations = []) ↔
      b ∧ n = k ∧ s' = s ∧ s.violations = [] := by
  obtain ⟨violations, rfl, hb⟩ := hr
  rw [Option.map_some, ← hb]
  constructor
  · rintro ⟨h, hclean⟩
    cases h
    obtain ⟨hs, hnil⟩ := Scan.clean_report.1 hclean
    exact ⟨hnil, rfl, by rw [hnil, Scan.report_nil], hs⟩
  · rintro ⟨rfl, rfl, rfl, hs⟩
    exact ⟨by rw [Scan.report_nil], hs⟩

theorem not_clean_report {s s' : Scan} {n k : ℕ} {v : ContractViolation} :
    ¬(some (s.report [v], k) = some (s', n) ∧ s'.violations = []) := by
  rintro ⟨h, hclean⟩
  cases h
  have hnil := (Scan.clean_report.1 hclean).2
  cases hnil

theorem clean_some {s s' : Scan} {n k : ℕ} :
    (some (s, k) = some (s', n) ∧ s'.violations = []) ↔ n = k ∧ s' = s ∧ s.violations = [] := by
  constructor
  · rintro ⟨h, hs⟩
    cases h
    exact ⟨rfl, rfl, hs⟩
  · rintro ⟨rfl, rfl, hs⟩
    exact ⟨rfl, hs⟩

/-- The gate has no objection to the values of a flag exactly if it takes them. -/
theorem scanValues_iff {s s' : Scan} {n : ℕ} (i : ℕ) (arg : Text) (f : CliFlagContract) (rest : List Text) :
    (scanValues cli s i arg (.flag f) rest = some (s', n) ∧ s'.violations = []) ↔
      (∃ values, takeValues f rest = some values ∧ n = values.length) ∧ s' = s ∧ s.violations = [] := by
  have hsome (values : List Text) :
      (∃ vs, some values = some vs ∧ n = vs.length) ∧ s' = s ∧ s.violations = [] ↔
        n = values.length ∧ s' = s ∧ s.violations = [] := by
    simp
  have hnone : ¬((∃ vs : List Text, none = some vs ∧ n = vs.length) ∧ s' = s ∧ s.violations = []) := by
    simp
  have hif (b : Bool) (values : List Text) :
      (∃ vs, (if b = true then some values else none) = some vs ∧ n = vs.length) ∧ s' = s ∧ s.violations = [] ↔
        b = true ∧ n = values.length ∧ s' = s ∧ s.violations = [] := by
    cases b <;> simp
  have harity : (Property.flag f).arity = some f.arity := rfl
  unfold scanValues takeValues
  rw [harity]
  cases f.arity with
  | none => exact clean_some.trans (hsome []).symm
  | one =>
    cases rest with
    | nil => exact iff_of_false not_clean_report hnone
    | cons value rest =>
      have hallow : (Property.flag f).allowLeadingHyphenValue = f.allowLeadingHyphenValue := rfl
      have hvalue := validateFlagValue_flag cli arg f value (some (i + 1))
      dsimp only
      rw [hallow, hif]
      cases f.allowLeadingHyphenValue <;> cases startsWithHyphen value
      · exact clean_map hvalue
      · exact iff_of_false not_clean_report (by simp)
      · exact clean_map hvalue
      · exact clean_map hvalue
  | optional =>
    cases rest with
    | nil => exact clean_some.trans (hsome []).symm
    | cons value rest =>
      have hvalue := validateFlagValue_flag cli arg f value (some (i + 1))
      dsimp only
      cases startsWithHyphen value
      · exact (clean_map hvalue).trans (hif _ [value]).symm
      · exact clean_some.trans (hsome []).symm
  | variadic =>
    dsimp only
    cases rest.takeWhile fun t => !startsWithHyphen t with
    | nil => exact iff_of_false not_clean_report hnone
    | cons value values =>
      exact (clean_map (validateFlagValues_flag arg f (value :: values) (i + 1))).trans (hif _ (value :: values)).symm

/-- The gate has no objection to a flag exactly if it has a role, and the context takes it. -/
theorem scanFlag_iff {s s' : Scan} {n : ℕ} (hs : s.violations = []) (i : ℕ) (arg name : Text) (inline : Option Text)
    (f : CliFlagContract) (rest : List Text) :
    (scanFlag cli resumeContext s i arg name inline (.flag f) rest = some (s', n) ∧ s'.violations = []) ↔
      (∃ role, takeFlag f name inline rest = some (role, n)) ∧
        (inline = none → name ∉ forbiddenFlags cli resumeContext) ∧ s' = s := by
  unfold scanFlag takeFlag
  cases inline with
  | some value =>
    have hinline : (Property.flag f).inlineValue = f.inlineValue := rfl
    have hvalue := validateFlagValue_flag cli name f value (some i)
    dsimp only
    rw [hinline]
    cases f.inlineValue with
    | false => exact iff_of_false not_clean_report (by simp)
    | true =>
      refine (clean_map hvalue).trans ?_
      cases allowed f value <;> simp [hs, eq_comm]
  | none =>
    dsimp only
    rw [scanValues_iff, Scan.clean_report, resumeViolations_eq_nil]
    constructor
    · rintro ⟨⟨values, hvalues, rfl⟩, rfl, -, hpermitted⟩
      refine ⟨⟨_, by rw [hvalues]; rfl⟩, fun _ => hpermitted, ?_⟩
      rw [(resumeViolations_eq_nil name i).2 hpermitted, Scan.report_nil]
    · rintro ⟨⟨role, hrole⟩, hpermitted, rfl⟩
      obtain ⟨values, hvalues, hpair⟩ := Option.map_eq_some_iff.1 hrole
      cases hpair
      refine ⟨⟨values, hvalues, rfl⟩, ?_, hs, hpermitted rfl⟩
      rw [(resumeViolations_eq_nil name i).2 (hpermitted rfl), Scan.report_nil]

/-- An inherited name is a flag without an arity: one value or more stand behind it. -/
theorem scanFlag_inherited {s s' : Scan} {n : ℕ} (hs : s.violations = []) (i : ℕ) (arg name : Text) (inline : Option Text)
    (hname : name ∉ forbiddenFlags cli resumeContext) (rest : List Text) :
    (scanFlag cli resumeContext s i arg name inline (.inherited name) rest = some (s', n) ∧ s'.violations = []) ↔
      inline = none ∧ (rest.takeWhile fun t => !startsWithHyphen t) ≠ [] ∧ name ≠ text "constructor" ∧
        n = (rest.takeWhile fun t => !startsWithHyphen t).length ∧ s' = s := by
  unfold scanFlag
  cases inline with
  | some value => exact iff_of_false not_clean_report (by simp)
  | none =>
    dsimp only
    rw [(resumeViolations_eq_nil name i).2 hname, Scan.report_nil]
    unfold scanValues
    dsimp only [Property.arity]
    cases hvalues : rest.takeWhile fun t => !startsWithHyphen t with
    | nil => exact iff_of_false not_clean_report (by simp)
    | cons value values =>
      dsimp only
      rw [validateFlagValues_inherited arg name (value :: values) (List.cons_ne_nil _ _)]
      by_cases hconstructor : name = text "constructor"
      · rw [if_pos hconstructor]
        exact iff_of_false (by simp) fun h => h.2.2.1 hconstructor
      · rw [if_neg hconstructor]
        refine (clean_map (b := True) ⟨[], rfl, iff_of_true rfl trivial⟩).trans ?_
        simp [hconstructor, hs]

/-- The scan when a piece has been taken. -/
def Scan.taken (cli : CliType) (s : Scan) (piece : Piece) : Scan :=
  { s with
    positionals := s.positionals ++ piece.positionals
    presentFlags := s.presentFlags ++ piece.present
    unknownFlagCount := s.unknownFlagCount +
      (piece.names.filter fun name => (declaredFlag (UPSTREAM_CLI_CONTRACTS cli) name).isNone).length }

theorem takeFlag_names {f : CliFlagContract} {name : Text} {inline : Option Text} {rest : List Text} {role : Role} {n : ℕ}
    (h : takeFlag f name inline rest = some (role, n)) :
    role.names = [name] ∧ role.positionals = [] ∧ (inline ≠ none → f.inlineValue = true) := by
  unfold takeFlag at h
  cases inline with
  | some value =>
    dsimp only at h
    split_ifs at h with hok
    cases h
    exact ⟨rfl, rfl, fun _ => (Bool.and_eq_true_iff.1 hok).1⟩
  | none =>
    obtain ⟨values, -, hpair⟩ := Option.map_eq_some_iff.1 h
    cases hpair
    exact ⟨rfl, rfl, fun hne => absurd rfl hne⟩

/-- A flag of the contract or one that is vouched for, as the gate comes upon it. -/
theorem scanFlag_role {s t s' : Scan} {n : ℕ} (hs : s.violations = []) (i : ℕ) (arg name : Text) (inline : Option Text)
    (f : CliFlagContract) (rest : List Text) (hinline : f.inlineValue = true → name ∉ forbiddenFlags cli resumeContext)
    (ht : ∀ role : Role, role.names = [name] → role.positionals = [] → s = t.taken cli (.role role)) :
    (scanFlag cli resumeContext s i arg name inline (.flag f) rest = some (s', n) ∧ s'.violations = []) ↔
      ∃ piece, ((takeFlag f name inline rest).map fun r => (Piece.role r.1, r.2)) = some (piece, n) ∧ piece.Served ∧
        (∀ name ∈ piece.names, name ∉ forbiddenFlags cli resumeContext) ∧ s' = t.taken cli piece := by
  rw [scanFlag_iff hs]
  constructor
  · rintro ⟨⟨role, hrole⟩, hpermitted, rfl⟩
    obtain ⟨hnames, hpositionals, hvalue⟩ := takeFlag_names hrole
    refine ⟨.role role, by rw [hrole]; rfl, trivial, ?_, ht role hnames hpositionals⟩
    show ∀ name ∈ role.names, _
    rw [hnames]
    intro m hm
    rw [List.mem_singleton.1 hm]
    by_cases hnone : inline = none
    · exact hpermitted hnone
    · exact hinline (hvalue hnone)
  · rintro ⟨piece, hpiece, -, hpermitted, rfl⟩
    obtain ⟨⟨role, k⟩, hrole, hpair⟩ := Option.map_eq_some_iff.1 hpiece
    cases hpair
    obtain ⟨hnames, hpositionals, -⟩ := takeFlag_names hrole
    refine ⟨⟨role, hrole⟩, fun _ => hpermitted name ?_, (ht role hnames hpositionals).symm⟩
    show name ∈ role.names
    rw [hnames]
    exact List.mem_singleton_self name

theorem scanArg_iff {s s' : Scan} {n : ℕ} (hs : s.violations = []) (hend : s.endOfOptions = false) (i : ℕ) {arg : Text}
    (harg : arg ≠ text "--") (rest : List Text) :
    (scanArg surfaceFlags cli passthrough resumeContext s i arg rest = some (s', n) ∧ s'.violations = []) ↔
      ∃ piece, pieceAt surfaceFlags cli passthrough arg rest = some (piece, n) ∧ piece.Served ∧
        (∀ name ∈ piece.names, name ∉ forbiddenFlags cli resumeContext) ∧ s' = s.taken cli piece := by
  unfold scanArg pieceAt
  rw [if_neg (by rw [hend]; decide), if_neg harg]
  rcases hsplit : splitEquals arg with ⟨name, inline⟩
  dsimp only
  unfold lookup
  cases hdeclared : declaredFlag (UPSTREAM_CLI_CONTRACTS cli) name with
  | some f =>
    dsimp only
    have hinline := (flags_table cli _ (mem_flags hdeclared)).2.2.2.2.2
    refine scanFlag_role (s := { s with presentFlags := s.presentFlags ++ [name] }) (t := s) hs i arg name inline f rest
      (fun h => hinline h resumeContext) fun role hnames hpositionals => ?_
    unfold Scan.taken Piece.positionals Piece.present Piece.names
    dsimp only
    rw [hnames, hpositionals, List.append_nil, List.filter_cons_of_neg (by rw [hdeclared]; simp)]
    rfl
  | none =>
    dsimp only
    by_cases hinherited : name ∈ objectPrototype
    · have hhyphen := objectPrototype_table name hinherited
      have hpermitted : name ∉ forbiddenFlags cli resumeContext := by
        intro hmem
        have hyes := (lists_table cli).1 resumeContext name hmem
        rw [hhyphen.1] at hyes
        cases hyes
      rw [if_pos hinherited]
      dsimp only
      rw [scanFlag_inherited (s := { s with presentFlags := s.presentFlags ++ [name] }) hs i arg name inline hpermitted]
      cases inline with
      | some value =>
        refine iff_of_false (fun h => absurd h.1 (by simp)) ?_
        rintro ⟨piece, hpiece, hserved, -⟩
        cases hpiece
        exact hserved.1 rfl
      | none =>
        have harg' : arg = name := by
          rcases splitEquals_cases arg with ⟨value, hvalue, -⟩ | hplain
          · rw [hsplit] at hvalue
            cases hvalue
          · rw [hsplit] at hplain
            exact (Prod.mk.inj hplain).1.symm
        have hsame : s.taken cli (.setAside name (rest.takeWhile fun t => !startsWithHyphen t)) =
            { s with presentFlags := s.presentFlags ++ [name] } := by
          unfold Scan.taken Piece.positionals Piece.present Piece.names
          dsimp only
          rw [List.append_nil]
          rfl
        subst harg'
        constructor
        · rintro ⟨-, hne, hconstructor, rfl, rfl⟩
          exact ⟨_, rfl, ⟨hne, hconstructor⟩, by rintro _ ⟨⟩, hsame.symm⟩
        · rintro ⟨piece, hpiece, hserved, -, rfl⟩
          cases hpiece
          exact ⟨rfl, hserved.1, hserved.2, rfl, hsame⟩
    · rw [if_neg hinherited]
      dsimp only
      by_cases hpositional : (UPSTREAM_CLI_CONTRACTS cli).stdinPromptMarker = some arg ∨ (!startsWithHyphen arg) = true
      · rw [if_pos hpositional, if_pos hpositional, clean_some]
        have hsame : s.taken cli (.role (.positional arg)) = { s with positionals := s.positionals ++ [arg] } := by
          unfold Scan.taken Piece.positionals Piece.present Piece.names Role.positionals Role.names
          dsimp only
          rw [List.append_nil]
          rfl
        constructor
        · rintro ⟨rfl, rfl, -⟩
          exact ⟨_, rfl, trivial, by rintro _ ⟨⟩, hsame.symm⟩
        · rintro ⟨piece, hpiece, -, -, rfl⟩
          cases hpiece
          exact ⟨rfl, hsame, hs⟩
      · rw [if_neg hpositional, if_neg hpositional]
        cases hundeclared : undeclaredFlagContract surfaceFlags cli name passthrough with
        | none => exact iff_of_false not_clean_report (by simp)
        | some f =>
          have hno := (arity_undeclared hundeclared).2.1
          rw [Option.bind_some]
          dsimp only
          refine scanFlag_role (s := { s with
              unknownFlagCount := s.unknownFlagCount + 1
              presentFlags := s.presentFlags ++ [name] }) (t := s) hs i arg name inline f rest
            (fun h => absurd h (by rw [hno]; decide)) fun role hnames hpositionals => ?_
          unfold Scan.taken Piece.positionals Piece.present Piece.names
          dsimp only
          rw [hnames, hpositionals, List.append_nil, List.filter_cons_of_pos (by rw [hdeclared]; rfl)]
          rfl

/-- No token takes a violation back. -/
theorem violations_scanArg {s s' : Scan} {n i : ℕ} {arg : Text} {rest : List Text}
    (h : scanArg surfaceFlags cli passthrough resumeContext s i arg rest = some (s', n)) : s.violations <+: s'.violations := by
  have hreport (t : Scan) (violations : List ContractViolation) : t.violations <+: (t.report violations).violations :=
    List.prefix_append _ _
  have hmap {t : Scan} {r : Option (List ContractViolation)} {k : ℕ}
      (hr : (r.map fun violations => (t.report violations, k)) = some (s', n)) : t.violations <+: s'.violations := by
    obtain ⟨violations, -, hpair⟩ := Option.map_eq_some_iff.1 hr
    cases hpair
    exact hreport t violations
  have hvalues {t : Scan} {flag : Property} (hr : scanValues cli t i arg flag rest = some (s', n)) :
      t.violations <+: s'.violations := by
    unfold scanValues at hr
    split at hr
    · cases hr
      exact List.prefix_rfl
    · split at hr
      · cases hr
        exact hreport t _
      · split_ifs at hr
        · cases hr
          exact hreport t _
        · exact hmap hr
    · split at hr
      · cases hr
        exact List.prefix_rfl
      · split_ifs at hr
        · cases hr
          exact List.prefix_rfl
        · exact hmap hr
    · split at hr
      · cases hr
        exact hreport t _
      · exact hmap hr
  have hflag {t : Scan} {name : Text} {inline : Option Text} {flag : Property}
      (hr : scanFlag cli resumeContext t i arg name inline flag rest = some (s', n)) : t.violations <+: s'.violations := by
    unfold scanFlag at hr
    split at hr
    · split_ifs at hr
      · cases hr
        exact hreport t _
      · exact hmap hr
    · exact (hreport t _).trans (hvalues hr)
  unfold scanArg at h
  dsimp only at h
  split at h
  · cases h
    exact List.prefix_rfl
  split at h
  · cases h
    exact hreport s _
  split at h
  · exact hflag (t := { s with presentFlags := s.presentFlags ++ [(splitEquals arg).1] }) h
  split at h
  · cases h
    exact List.prefix_rfl
  split at h
  · cases h
    exact hreport s _
  · exact hflag (t := { s with
        unknownFlagCount := s.unknownFlagCount + 1
        presentFlags := s.presentFlags ++ [(splitEquals arg).1] }) h

theorem violations_scan {s s' : Scan} {i : ℕ} {args : List Text}
    (h : scan surfaceFlags cli passthrough resumeContext s i args = some s') : s.violations <+: s'.violations := by
  fun_induction scan surfaceFlags cli passthrough resumeContext s i args with
  | case1 s i =>
    cases h
    exact List.prefix_rfl
  | case2 s i arg rest ih =>
    obtain ⟨⟨t, n⟩, harg, hrest⟩ := Option.bind_eq_some_iff.1 h
    exact (violations_scanArg harg).trans (ih (t, n) hrest)

/-- Behind `--` every token is a prompt. -/
theorem scan_endOfOptions (args : List Text) : ∀ {s : Scan} {i : ℕ}, s.endOfOptions = true →
    scan surfaceFlags cli passthrough resumeContext s i args =
      some { s with endOfOptionsPositionals := s.endOfOptionsPositionals ++ args } := by
  induction args with
  | nil =>
    intro s i _
    rw [scan, List.append_nil]
  | cons arg args ih =>
    intro s i hs
    have harg : scanArg surfaceFlags cli passthrough resumeContext s i arg args =
        some ({ s with endOfOptionsPositionals := s.endOfOptionsPositionals ++ [arg] }, 0) := if_pos hs
    rw [scan, harg, Option.bind_some, List.drop_zero,
      ih (s := { s with endOfOptionsPositionals := s.endOfOptionsPositionals ++ [arg] }) hs]
    dsimp only
    rw [List.append_assoc, List.singleton_append]

/-- The scan when all pieces have been taken, and the tokens behind `--`. -/
def Scan.through (cli : CliType) (s : Scan) (pieces : List Piece) (behind : Option (List Text)) : Scan :=
  { pieces.foldl (Scan.taken cli) s with endOfOptions := behind.isSome, endOfOptionsPositionals := behind.getD [] }

theorem scan_nil_iff {s s' : Scan} {i : ℕ} (hs : s.violations = []) (hend : s.endOfOptions = false)
    (hprompts : s.endOfOptionsPositionals = []) :
    (scan surfaceFlags cli passthrough resumeContext s i [] = some s' ∧ s'.violations = []) ↔
      ∃ pieces behind, skim surfaceFlags cli passthrough [] = some (pieces, behind) ∧ (∀ p ∈ pieces, p.Served) ∧
        (∀ name ∈ pieces.flatMap Piece.names, name ∉ forbiddenFlags cli resumeContext) ∧
        (behind.isSome = true → (UPSTREAM_CLI_CONTRACTS cli).allowsEndOfOptionsPrompt = true) ∧
        s' = s.through cli pieces behind := by
  have hsame : s.through cli [] none = s := by
    unfold Scan.through
    rw [List.foldl_nil, Option.isSome_none, Option.getD_none, ← hend, ← hprompts]
  rw [scan, skim]
  constructor
  · rintro ⟨h, -⟩
    cases h
    exact ⟨[], none, rfl, by simp, by simp, by simp, hsame.symm⟩
  · rintro ⟨pieces, behind, h, -, -, -, rfl⟩
    cases h
    exact ⟨by rw [hsame], hs⟩

theorem scan_boundary_iff {s s' : Scan} {i : ℕ} {arg : Text} {rest : List Text} (harg : arg = text "--") (hs : s.violations = [])
    (hend : s.endOfOptions = false) (hprompts : s.endOfOptionsPositionals = []) :
    (((scanArg surfaceFlags cli passthrough resumeContext s i arg rest).bind fun r =>
          scan surfaceFlags cli passthrough resumeContext r.1 (i + 1 + r.2) (rest.drop r.2)) = some s' ∧ s'.violations = []) ↔
      ∃ pieces behind, some ([], some rest) = some (pieces, behind) ∧ (∀ p ∈ pieces, p.Served) ∧
        (∀ name ∈ pieces.flatMap Piece.names, name ∉ forbiddenFlags cli resumeContext) ∧
        (behind.isSome = true → (UPSTREAM_CLI_CONTRACTS cli).allowsEndOfOptionsPrompt = true) ∧
        s' = s.through cli pieces behind := by
  unfold scanArg
  rw [if_neg (by rw [hend]; decide), if_pos harg]
  dsimp only
  rw [Option.bind_some, List.drop_zero, scan_endOfOptions rest rfl]
  by_cases hallows : (UPSTREAM_CLI_CONTRACTS cli).allowsEndOfOptionsPrompt = true
  · rw [hallows, if_neg (by decide), Scan.report_nil]
    constructor
    · rintro ⟨h, -⟩
      cases h
      refine ⟨[], some rest, rfl, by simp, by simp, fun _ => rfl, ?_⟩
      unfold Scan.through
      dsimp only
      rw [hprompts]
      rfl
    · rintro ⟨pieces, behind, h, -, -, -, rfl⟩
      cases h
      refine ⟨?_, hs⟩
      unfold Scan.through
      dsimp only
      rw [hprompts]
      rfl
  · rw [if_pos (by rw [Bool.not_eq_true] at hallows; rw [hallows]; rfl)]
    constructor
    · rintro ⟨h, hclean⟩
      cases h
      cases (Scan.clean_report.1 hclean).2
    · rintro ⟨pieces, behind, h, -, -, hyes, -⟩
      cases h
      exact absurd (hyes rfl) hallows

/-- **The gate goes over all tokens without an objection exactly if they can be skimmed**, every inherited name passes, no flag
is forbidden and `--` is allowed. -/
theorem scan_iff {s' : Scan} : ∀ (m : ℕ) {args : List Text}, args.length ≤ m → ∀ {s : Scan} {i : ℕ}, s.violations = [] →
    s.endOfOptions = false → s.endOfOptionsPositionals = [] →
    ((scan surfaceFlags cli passthrough resumeContext s i args = some s' ∧ s'.violations = []) ↔
      ∃ pieces behind, skim surfaceFlags cli passthrough args = some (pieces, behind) ∧ (∀ p ∈ pieces, p.Served) ∧
        (∀ name ∈ pieces.flatMap Piece.names, name ∉ forbiddenFlags cli resumeContext) ∧
        (behind.isSome = true → (UPSTREAM_CLI_CONTRACTS cli).allowsEndOfOptionsPrompt = true) ∧
        s' = s.through cli pieces behind) := by
  intro m
  induction m with
  | zero =>
    intro args hlength s i hs hend hprompts
    cases args with
    | nil => exact scan_nil_iff hs hend hprompts
    | cons arg rest => exact absurd hlength (by rw [List.length_cons]; omega)
  | succ m ih =>
    intro args hlength s i hs hend hprompts
    cases args with
    | nil => exact scan_nil_iff hs hend hprompts
    | cons arg rest =>
      rw [List.length_cons] at hlength
      rw [scan, skim]
      by_cases harg : arg = text "--"
      · rw [if_pos harg]
        exact scan_boundary_iff harg hs hend hprompts
      · rw [if_neg harg]
        constructor
        · rintro ⟨hscan, hclean⟩
          obtain ⟨⟨t, n⟩, hfirst, hrest⟩ := Option.bind_eq_some_iff.1 hscan
          have hprefix := violations_scan hrest
          rw [hclean] at hprefix
          obtain ⟨piece, hpiece, hserved, hpermitted, rfl⟩ :=
            (scanArg_iff hs hend i harg rest).1 ⟨hfirst, List.prefix_nil.1 hprefix⟩
          obtain ⟨pieces, behind, hskim, hall, hnames, hallows, rfl⟩ :=
            (ih (show (rest.drop n).length ≤ m by rw [List.length_drop]; omega) (s := s.taken cli piece) hs hend hprompts).1
              ⟨hrest, hclean⟩
          refine ⟨piece :: pieces, behind, ?_, ?_, ?_, hallows, rfl⟩
          · rw [hpiece]
            dsimp only
            rw [hskim]
            rfl
          · exact List.forall_mem_cons.2 ⟨hserved, hall⟩
          · rw [List.flatMap_cons]
            exact List.forall_mem_append.2 ⟨hpermitted, hnames⟩
        · rintro ⟨pieces, behind, hskim, hall, hnames, hallows, rfl⟩
          cases hpiece : pieceAt surfaceFlags cli passthrough arg rest with
          | none =>
            rw [hpiece] at hskim
            cases hskim
          | some r =>
            obtain ⟨piece, n⟩ := r
            rw [hpiece] at hskim
            obtain ⟨⟨more, b⟩, hrest, hpair⟩ := Option.map_eq_some_iff.1 hskim
            cases hpair
            rw [List.flatMap_cons] at hnames
            obtain ⟨hserved, hall⟩ := List.forall_mem_cons.1 hall
            obtain ⟨hpermitted, hnames⟩ := List.forall_mem_append.1 hnames
            have hfirst : scanArg surfaceFlags cli passthrough resumeContext s i arg rest = some (s.taken cli piece, n) ∧
                (s.taken cli piece).violations = [] :=
              (scanArg_iff hs hend i harg rest).2 ⟨piece, hpiece, hserved, hpermitted, rfl⟩
            have hshort : (rest.drop n).length ≤ m := by
              rw [List.length_drop]
              omega
            have hthen := (ih hshort (s := s.taken cli piece) (i := i + 1 + n) hs hend hprompts).2
              ⟨more, b, hrest, hall, hnames, hallows, rfl⟩
            refine ⟨?_, hthen.2⟩
            rw [hfirst.1, Option.bind_some]
            exact hthen.1

/-! ## Pieces and roles -/

/-- The roles of a piece; those that are set aside are positional. -/
def Piece.roles : Piece → List Role
  | .role r => [r]
  | .setAside token following => (token :: following).map .positional

def tail (behind : Option (List Text)) : List Text := behind.elim [] fun tokens => text "--" :: tokens

theorem tokens_map_positional (ts : List Text) : (ts.map Role.positional).flatMap Role.tokens = ts := by
  induction ts with
  | nil => rfl
  | cons t ts ih =>
    rw [List.map_cons, List.flatMap_cons, ih]
    rfl

theorem startsWithHyphen_append {name rest : Text} (h : name ≠ []) : startsWithHyphen (name ++ rest) = startsWithHyphen name := by
  cases name with
  | nil => exact absurd rfl h
  | cons c name => rfl

theorem takeWhile_eq_take (p : Text → Bool) (rest : List Text) : rest.takeWhile p = rest.take (rest.takeWhile p).length :=
  List.prefix_iff_eq_take.1 (List.takeWhile_prefix p)

theorem takeValues_spec {f : CliFlagContract} {rest values : List Text}
    (h : takeValues f rest = some values) : Takes f values ∧ values = rest.take values.length := by
  have hsingle {value : Text} {more : List Text} (hfits : fits f.arity 1) (hallowed : allowed f value = true)
      (hhyphen : startsWithHyphen value = true → f.allowLeadingHyphenValue = true) :
      Takes f [value] ∧ [value] = (value :: more).take 1 := by
    refine ⟨⟨hfits, ?_, ?_⟩, rfl⟩
    · exact fun v hv => by rwa [List.mem_singleton.1 hv]
    · exact fun v hv => by rwa [List.mem_singleton.1 hv]
  have hnil (hfits : fits f.arity 0) : Takes f [] ∧ [] = rest.take 0 := ⟨⟨hfits, by simp, by simp⟩, rfl⟩
  unfold takeValues at h
  cases harity : f.arity with
  | none =>
    rw [harity] at h hnil
    cases h
    exact hnil rfl
  | one =>
    rw [harity] at h hsingle
    cases rest with
    | nil => cases h
    | cons value more =>
      dsimp only at h
      split_ifs at h with hok
      cases h
      rw [Bool.and_eq_true, Bool.or_eq_true, Bool.not_eq_true'] at hok
      refine hsingle rfl hok.2 fun hyes => hok.1.resolve_right ?_
      rw [hyes]
      decide
  | optional =>
    rw [harity] at h hsingle hnil
    cases rest with
    | nil =>
      cases h
      exact hnil (Nat.zero_le 1)
    | cons value more =>
      dsimp only at h
      split_ifs at h with hhyphen hok
      · cases h
        exact hnil (Nat.zero_le 1)
      · cases h
        exact hsingle le_rfl hok fun hyes => absurd hyes hhyphen
  | variadic =>
    rw [harity] at h
    dsimp only at h
    have htake := takeWhile_eq_take (fun t => !startsWithHyphen t) rest
    have hplain (v : Text) (hv : v ∈ rest.takeWhile fun t => !startsWithHyphen t) : (!startsWithHyphen v) = true :=
      List.mem_takeWhile_imp (p := fun t => !startsWithHyphen t) hv
    split at h
    · cases h
    · rename_i hne
      split_ifs at h with hall
      cases h
      refine ⟨⟨?_, fun v hv => List.all_eq_true.1 hall v hv, fun v hv hyes => ?_⟩, htake⟩
      · rw [harity]
        exact List.length_pos_iff.2 hne
      · have hno := hplain v hv
        rw [hyes] at hno
        cases hno

theorem takeValues_complete {f : CliFlagContract} (hone : f.allowLeadingHyphenValue = true → f.arity = .one)
    {values rest : List Text} (h : Takes f values)
    (hstop : f.arity = .none ∨ f.arity = .one ∨ ∀ t ∈ rest.head?, startsWithHyphen t = true) :
    takeValues f (values ++ rest) = some values := by
  have hlength := h.arity
  unfold takeValues
  cases harity : f.arity with
  | none =>
    rw [harity] at hlength
    rw [List.length_eq_zero_iff.1 hlength]
  | one =>
    rw [harity] at hlength
    obtain ⟨value, rfl⟩ := List.length_eq_one_iff.1 hlength
    have hmem := List.mem_singleton_self value
    have hok : ((f.allowLeadingHyphenValue || !startsWithHyphen value) && allowed f value) = true := by
      rw [h.allowed value hmem, Bool.and_true]
      cases hhyphen : startsWithHyphen value with
      | false => exact Bool.or_true _
      | true => rw [h.hyphen value hmem hhyphen, Bool.true_or]
    exact if_pos hok
  | optional =>
    have hplain (v : Text) (hv : v ∈ values) : startsWithHyphen v = false := by
      rw [← Bool.not_eq_true]
      intro hhyphen
      have hbad := hone (h.hyphen v hv hhyphen)
      rw [harity] at hbad
      cases hbad
    rw [harity] at hlength
    cases values with
    | nil =>
      rw [harity] at hstop
      have hhead := (hstop.resolve_left (by simp)).resolve_left (by simp)
      cases rest with
      | nil => rfl
      | cons t ts => exact if_pos (hhead t rfl)
    | cons value more =>
      have hmore : more = [] := List.length_eq_zero_iff.1 (Nat.le_zero.1 (Nat.le_of_succ_le_succ hlength))
      subst hmore
      have hvalue := hplain value List.mem_cons_self
      dsimp only [List.cons_append]
      rw [if_neg (by rw [hvalue]; decide), if_pos (h.allowed value List.mem_cons_self)]
  | variadic =>
    have hplain (v : Text) (hv : v ∈ values) : (!startsWithHyphen v) = true := by
      rw [Bool.not_eq_true', ← Bool.not_eq_true]
      intro hhyphen
      have hbad := hone (h.hyphen v hv hhyphen)
      rw [harity] at hbad
      cases hbad
    rw [harity] at hlength hstop
    have hhead := (hstop.resolve_left (by simp)).resolve_left (by simp)
    have htake : (values ++ rest).takeWhile (fun t => !startsWithHyphen t) = values := by
      rw [List.takeWhile_append_of_pos hplain]
      cases rest with
      | nil => rw [List.takeWhile_nil, List.append_nil]
      | cons t ts => rw [List.takeWhile_cons_of_neg (by rw [hhead t rfl]; decide), List.append_nil]
    dsimp only
    rw [htake]
    cases values with
    | nil => exact absurd hlength (Nat.not_succ_le_zero 0)
    | cons value more => exact if_pos (List.all_eq_true.2 h.allowed)

/-- What is known under the name of a token, and is no marker, is a flag with the tokens behind it. -/
theorem pieceAt_known {arg name : Text} {inline : Option Text} {f : CliFlagContract} {rest : List Text}
    (hsplit : splitEquals arg = (name, inline)) (hf : knownFlag surfaceFlags cli passthrough name = some f)
    (hmarker : (UPSTREAM_CLI_CONTRACTS cli).stdinPromptMarker ≠ some arg) (hhyphen : startsWithHyphen arg = true) :
    pieceAt surfaceFlags cli passthrough arg rest = (takeFlag f name inline rest).map fun r => (.role r.1, r.2) := by
  have hname := (known_cases hf).1
  unfold pieceAt
  rw [hsplit]
  dsimp only
  unfold knownFlag at hf
  unfold lookup
  cases hdeclared : declaredFlag (UPSTREAM_CLI_CONTRACTS cli) name with
  | some g =>
    rw [hdeclared, Option.some_or] at hf
    cases hf
    rfl
  | none =>
    rw [hdeclared, Option.none_or] at hf
    split_ifs at hf with hvouched
    have hinherited : name ∉ objectPrototype := by
      intro hmem
      have hno := (objectPrototype_table name hmem).1
      rw [hname] at hno
      cases hno
    dsimp only
    rw [if_neg hinherited]
    dsimp only
    rw [if_neg (by rw [hhyphen]; simpa using hmarker), hf, Option.bind_some]

/-- The name that is looked up for a token begins like it. -/
theorem startsWithHyphen_name (arg : Text) : startsWithHyphen (splitEquals arg).1 = startsWithHyphen arg := by
  rcases splitEquals_cases arg with ⟨value, -, harg, -, hne⟩ | hplain
  · conv_rhs => rw [harg]
    exact (startsWithHyphen_append hne).symm
  · rw [hplain]

theorem takeFlag_spec {f : CliFlagContract} {arg name : Text} {inline : Option Text} {rest : List Text} {role : Role} {n : ℕ}
    (hsplit : splitEquals arg = (name, inline)) (harg : arg ≠ text "--")
    (hf : knownFlag surfaceFlags cli passthrough name = some f) (hplain : inline = none → 61 ∉ name)
    (h : takeFlag f name inline rest = some (role, n)) :
    role.WellFormed surfaceFlags cli passthrough ∧ role.tokens = arg :: rest.take n := by
  unfold takeFlag at h
  rcases splitEquals_cases arg with ⟨value, hvalue, hsame, hno, -⟩ | hsame
  · rw [hsplit] at hvalue hsame hno
    obtain ⟨-, rfl⟩ := Prod.mk.inj hvalue
    dsimp only at h
    split_ifs at h with hok
    cases h
    rw [Bool.and_eq_true] at hok
    exact ⟨⟨hno, f, hf, hok.1, hok.2⟩, congrArg (fun t => [t]) hsame.symm⟩
  · rw [hsplit] at hsame
    obtain ⟨rfl, rfl⟩ := Prod.mk.inj hsame
    obtain ⟨values, hvalues, hpair⟩ := Option.map_eq_some_iff.1 h
    cases hpair
    obtain ⟨htakes, htake⟩ := takeValues_spec hvalues
    exact ⟨⟨harg, hplain rfl, f, hf, htakes⟩, congrArg (List.cons name) htake⟩

theorem notMem_of_split {arg : Text} (hsplit : splitEquals arg = (arg, none)) (hhyphen : startsWithHyphen arg = true) :
    61 ∉ arg := by
  intro hmem
  cases arg with
  | nil => cases hmem
  | cons c arg =>
    have hc : c = 45 := by simpa [startsWithHyphen] using hhyphen
    subst hc
    have hdrop : arg.dropWhile (· != 61) ≠ [] := by
      rw [ne_eq, List.dropWhile_eq_nil_iff]
      intro hall
      have hbad := hall 61 ((List.mem_cons.1 hmem).resolve_left (by decide))
      exact absurd hbad (by decide)
    obtain ⟨u, value, hvalue⟩ := List.exists_cons_of_ne_nil hdrop
    unfold splitEquals at hsplit
    rw [List.takeWhile_cons_of_pos (by decide), List.dropWhile_cons_of_pos (by decide), hvalue] at hsplit
    cases (Prod.mk.inj hsplit).2

/-- What stands under the roles of a piece are the token and those behind it. -/
theorem pieceAt_spec {arg : Text} {rest : List Text} {piece : Piece} {n : ℕ} (harg : arg ≠ text "--")
    (h : pieceAt surfaceFlags cli passthrough arg rest = some (piece, n)) :
    (∀ role ∈ piece.roles, role.WellFormed surfaceFlags cli passthrough) ∧
      piece.roles.flatMap Role.tokens = arg :: rest.take n ∧
      ∀ name ∈ piece.present, startsWithHyphen name = true → name ∈ piece.names := by
  have hflag {f : CliFlagContract} {name : Text} {inline : Option Text} (hsplit : splitEquals arg = (name, inline))
      (hf : knownFlag surfaceFlags cli passthrough name = some f)
      (hpiece : ((takeFlag f name inline rest).map fun r => (Piece.role r.1, r.2)) = some (piece, n)) :
      (∀ role ∈ piece.roles, role.WellFormed surfaceFlags cli passthrough) ∧
        piece.roles.flatMap Role.tokens = arg :: rest.take n ∧
        ∀ name ∈ piece.present, startsWithHyphen name = true → name ∈ piece.names := by
    obtain ⟨⟨role, k⟩, hrole, hpair⟩ := Option.map_eq_some_iff.1 hpiece
    cases hpair
    have hno : inline = none → 61 ∉ name := by
      rintro rfl
      rcases splitEquals_cases arg with ⟨value, hvalue, -⟩ | hsame
      · rw [hsplit] at hvalue
        cases hvalue
      · rw [hsplit] at hsame
        obtain ⟨rfl, -⟩ := Prod.mk.inj hsame
        exact notMem_of_split hsplit (known_cases hf).1
    obtain ⟨hwellFormed, htokens⟩ := takeFlag_spec hsplit harg hf hno hrole
    refine ⟨?_, ?_, fun name hname _ => hname⟩
    · exact List.forall_mem_singleton.2 hwellFormed
    · rw [← htokens]
      exact List.flatMap_singleton ..
  unfold pieceAt at h
  rcases hsplit : splitEquals arg with ⟨name, inline⟩
  have hbegin := startsWithHyphen_name arg
  rw [hsplit] at h hbegin
  dsimp only at h hbegin
  unfold lookup at h
  cases hdeclared : declaredFlag (UPSTREAM_CLI_CONTRACTS cli) name with
  | some f =>
    rw [hdeclared] at h
    refine hflag hsplit ?_ h
    unfold knownFlag
    rw [hdeclared, Option.some_or]
  | none =>
    rw [hdeclared] at h
    dsimp only at h
    by_cases hinherited : name ∈ objectPrototype
    · rw [if_pos hinherited] at h
      cases h
      have hplain := (objectPrototype_table name hinherited).1
      rw [hbegin] at hplain
      refine ⟨?_, ?_, ?_⟩
      · intro role hrole
        obtain ⟨t, ht, rfl⟩ := List.mem_map.1 hrole
        rcases List.mem_cons.1 ht with rfl | ht
        · exact .inl hplain
        · split_ifs at ht with hinline
          · cases ht
          · have hno := List.mem_takeWhile_imp (p := fun t => !startsWithHyphen t) ht
            rw [Bool.not_eq_true'] at hno
            exact .inl hno
      · refine (tokens_map_positional _).trans (congrArg (List.cons arg) ?_)
        split_ifs
        · rfl
        · exact takeWhile_eq_take _ rest
      · intro m hm hyes
        rw [List.mem_singleton.1 hm, hplain] at hyes
        cases hyes
    · rw [if_neg hinherited] at h
      dsimp only at h
      split_ifs at h with hpositional
      · cases h
        refine ⟨?_, rfl, fun m hm _ => hm⟩
        refine List.forall_mem_singleton.2 ?_
        rw [Bool.not_eq_true'] at hpositional
        exact hpositional.symm
      · obtain ⟨f, hf, hpiece⟩ := Option.bind_eq_some_iff.1 h
        rw [not_or, Bool.not_eq_true', Bool.not_eq_false] at hpositional
        refine hflag hsplit ?_ hpiece
        have hinline : inline = none := by
          cases inline with
          | none => rfl
          | some value =>
            obtain ⟨r, hr, -⟩ := Option.map_eq_some_iff.1 hpiece
            unfold takeFlag at hr
            rw [(arity_undeclared hf).2.1] at hr
            cases hr
        subst hinline
        rcases splitEquals_cases arg with ⟨value, hvalue, -⟩ | hsame
        · rw [hsplit] at hvalue
          cases hvalue
        · rw [hsplit] at hsame
          obtain ⟨rfl, -⟩ := Prod.mk.inj hsame
          unfold knownFlag
          rw [hdeclared, Option.none_or, if_pos, hf]
          rw [Bool.and_eq_true, bne_iff_ne]
          exact ⟨hpositional.2, hpositional.1⟩

/-- **What has been skimmed is a reading of the tokens.** -/
theorem skim_spec {args : List Text} {pieces : List Piece} {behind : Option (List Text)}
    (h : skim surfaceFlags cli passthrough args = some (pieces, behind)) :
    (∀ role ∈ pieces.flatMap Piece.roles, role.WellFormed surfaceFlags cli passthrough) ∧
      args = (pieces.flatMap Piece.roles).flatMap Role.tokens ++ tail behind ∧
      ∀ name ∈ pieces.flatMap Piece.present, startsWithHyphen name = true → name ∈ pieces.flatMap Piece.names := by
  fun_induction skim surfaceFlags cli passthrough args generalizing pieces behind with
  | case1 | case2 rest =>
    cases h
    simp [tail]
  | case3 arg rest harg hpiece => cases h
  | case4 arg rest harg piece n hpiece ih =>
    obtain ⟨⟨more, b⟩, hrest, hpair⟩ := Option.map_eq_some_iff.1 h
    cases hpair
    obtain ⟨hwellFormed, htokens, hnames⟩ := ih hrest
    obtain ⟨hfirst, hhead, hpresent⟩ := pieceAt_spec harg hpiece
    refine ⟨?_, ?_, ?_⟩
    · rw [List.flatMap_cons]
      exact List.forall_mem_append.2 ⟨hfirst, hwellFormed⟩
    · rw [List.flatMap_cons, List.flatMap_append, hhead, List.append_assoc, ← htokens, List.cons_append, List.take_append_drop]
    · rw [List.flatMap_cons, List.flatMap_cons]
      intro name hname hyes
      rcases List.mem_append.1 hname with hname | hname
      · exact List.mem_append_left _ (hpresent name hname hyes)
      · exact List.mem_append_right _ (hnames name hname hyes)

/-- Tokens without a hyphen are positional where a role begins. -/
theorem roles_front (behind : Option (List Text)) {roles : List Role}
    (h : ∀ role ∈ roles, role.WellFormed surfaceFlags cli passthrough) :
    ∃ more, roles =
      (((roles.flatMap Role.tokens ++ tail behind).takeWhile fun t => !startsWithHyphen t).map Role.positional) ++ more := by
  induction roles with
  | nil =>
    refine ⟨[], ?_⟩
    have hnil : ((tail behind).takeWhile fun t => !startsWithHyphen t) = [] := by
      cases behind with
      | none => rfl
      | some ts => exact List.takeWhile_cons_of_neg (by decide)
    rw [List.flatMap_nil, List.nil_append, hnil]
    rfl
  | cons role roles ih =>
    obtain ⟨hrole, hroles⟩ := List.forall_mem_cons.1 h
    have hhyphen (t : Text) (ts : List Text) (ht : startsWithHyphen t = true) (hts : role.tokens = t :: ts) :
        ∃ more, role :: roles =
          ((((role :: roles).flatMap Role.tokens ++ tail behind).takeWhile fun t => !startsWithHyphen t).map Role.positional) ++
            more := by
      refine ⟨role :: roles, ?_⟩
      rw [List.flatMap_cons, hts, List.cons_append, List.cons_append, List.takeWhile_cons_of_neg (by rw [ht]; decide)]
      rfl
    cases role with
    | flag name values =>
      obtain ⟨-, -, f, hf, -⟩ := hrole
      exact hhyphen name values (known_cases hf).1 rfl
    | inline name value =>
      obtain ⟨-, f, hf, -⟩ := hrole
      have hname := (known_cases hf).1
      refine hhyphen (name ++ 61 :: value) [] ?_ rfl
      rw [startsWithHyphen_append, hname]
      rintro rfl
      cases hname
    | positional token =>
      by_cases hplain : startsWithHyphen token = true
      · exact hhyphen token [] hplain rfl
      · obtain ⟨more, hmore⟩ := ih hroles
        refine ⟨more, ?_⟩
        rw [List.flatMap_cons, Role.tokens, List.singleton_append, List.cons_append,
          List.takeWhile_cons_of_pos (by simpa using hplain), List.map_cons, List.cons_append, ← hmore]

/-- Where no role is positional, a role or the boundary begins with a hyphen. -/
theorem head_of_no_positional {behind : Option (List Text)} {roles : List Role}
    (h : ∀ role ∈ roles, role.WellFormed surfaceFlags cli passthrough) (hno : roles.flatMap Role.positionals = []) :
    ∀ t ∈ (roles.flatMap Role.tokens ++ tail behind).head?, startsWithHyphen t = true := by
  obtain ⟨more, hmore⟩ := roles_front behind h
  intro t ht
  cases htokens : roles.flatMap Role.tokens ++ tail behind with
  | nil =>
    rw [htokens] at ht
    cases ht
  | cons u us =>
    rw [htokens] at ht hmore
    cases ht
    by_contra hplain
    rw [List.takeWhile_cons_of_pos (by simpa using hplain)] at hmore
    rw [hmore] at hno
    cases hno

theorem positional_token {token : Text} (h : (Role.positional token).WellFormed surfaceFlags cli passthrough) :
    token ≠ text "--" ∧ declaredFlag (UPSTREAM_CLI_CONTRACTS cli) (splitEquals token).1 = none := by
  rcases h with hplain | hmarker
  · refine ⟨?_, declaredFlag_eq_none ((startsWithHyphen_name token).trans hplain)⟩
    rintro rfl
    exact absurd hplain (by decide)
  · obtain ⟨-, hne, hno⟩ := marker_table cli token hmarker
    refine ⟨hne, ?_⟩
    rw [splitEquals_plain hno]
    cases hf : declaredFlag (UPSTREAM_CLI_CONTRACTS cli) token with
    | none => rfl
    | some f => exact absurd hmarker (flags_table cli _ (mem_flags hf)).2.2.2.1

/-- **A reading is found by skimming**, where flags are followed by a fixed number of values or no token is positional. -/
theorem skim_complete (behind : Option (List Text)) : ∀ (m : ℕ) {roles : List Role}, roles.length ≤ m →
    (∀ role ∈ roles, role.WellFormed surfaceFlags cli passthrough) →
    (roles.flatMap Role.positionals).length ≤ maxPositionals cli resumeContext →
    ∃ pieces, skim surfaceFlags cli passthrough (roles.flatMap Role.tokens ++ tail behind) = some (pieces, behind) ∧
      pieces.flatMap Piece.roles = roles := by
  have hend : ∃ pieces,
      skim surfaceFlags cli passthrough (tail behind) = some (pieces, behind) ∧ pieces.flatMap Piece.roles = [] := by
    cases behind with
    | none => exact ⟨[], by rw [tail, Option.elim_none, skim], rfl⟩
    | some ts => exact ⟨[], by rw [tail, Option.elim_some, skim, if_pos rfl], rfl⟩
  intro m
  induction m with
  | zero =>
    intro roles hlength _ _
    rw [List.length_eq_zero_iff.1 (Nat.le_zero.1 hlength)]
    exact hend
  | succ m ih =>
    intro roles hlength hroles hcount
    cases roles with
    | nil => exact hend
    | cons role roles =>
      rw [List.length_cons] at hlength
      obtain ⟨hrole, hmore⟩ := List.forall_mem_cons.1 hroles
      rw [List.flatMap_cons, List.length_append] at hcount
      -- a role that is taken as it stands
      have hstep {arg : Text} (values : List Text) (harg : arg ≠ text "--") (htokens : role.tokens = arg :: values)
          (hpiece : pieceAt surfaceFlags cli passthrough arg (values ++ (roles.flatMap Role.tokens ++ tail behind)) =
            some (.role role, values.length)) :
          ∃ pieces, skim surfaceFlags cli passthrough ((role :: roles).flatMap Role.tokens ++ tail behind) =
              some (pieces, behind) ∧ pieces.flatMap Piece.roles = role :: roles := by
        obtain ⟨pieces, hskim, hpieces⟩ := ih (show roles.length ≤ m by omega) hmore (by omega)
        refine ⟨.role role :: pieces, ?_, ?_⟩
        · rw [List.flatMap_cons, htokens, List.append_assoc, List.cons_append, skim, if_neg harg, hpiece]
          dsimp only
          rw [List.drop_left, hskim]
          rfl
        · rw [List.flatMap_cons, hpieces]
          rfl
      cases role with
      | flag name values =>
        obtain ⟨harg, hno, f, hf, htakes⟩ := hrole
        obtain ⟨hhyphen, hmarker, hone, -, harity⟩ := known_cases hf
        refine hstep values harg rfl ?_
        rw [pieceAt_known (splitEquals_plain hno) hf hmarker hhyphen]
        have hstop : f.arity = .none ∨ f.arity = .one ∨
            ∀ t ∈ (roles.flatMap Role.tokens ++ tail behind).head?, startsWithHyphen t = true := by
          refine harity.imp_right fun h => h.imp_right fun hmax => head_of_no_positional hmore ?_
          rw [hmax resumeContext] at hcount
          exact List.length_eq_zero_iff.1 (by omega)
        unfold takeFlag
        dsimp only
        rw [takeValues_complete hone htakes hstop]
        rfl
      | inline name value =>
        obtain ⟨hno, f, hf, hinline, hallowed⟩ := hrole
        have hhyphen := (known_cases hf).1
        have hne : name ≠ [] := by
          rintro rfl
          cases hhyphen
        have hmem : 61 ∈ name ++ 61 :: value := List.mem_append_right _ List.mem_cons_self
        have hbegin : startsWithHyphen (name ++ 61 :: value) = true := (startsWithHyphen_append hne).trans hhyphen
        refine hstep [] (fun h => ?_) rfl ?_
        · rw [h] at hmem
          exact absurd hmem (by decide)
        · have hmarker : (UPSTREAM_CLI_CONTRACTS cli).stdinPromptMarker ≠ some (name ++ 61 :: value) := by
            intro h
            exact (marker_table cli _ h).2.2 hmem
          rw [pieceAt_known (splitEquals_inline hno hne) hf hmarker hbegin]
          unfold takeFlag
          dsimp only
          rw [if_pos (by rw [hinline, hallowed]; decide)]
          rfl
      | positional token =>
        obtain ⟨harg, hdeclared⟩ := positional_token hrole
        by_cases hinherited : (splitEquals token).1 ∈ objectPrototype
        · -- the positional tokens that are set aside with it
          obtain ⟨following, more, hfollowing, hsplit⟩ : ∃ following more,
              following = (if (splitEquals token).2.isSome then [] else
                (roles.flatMap Role.tokens ++ tail behind).takeWhile fun t => !startsWithHyphen t) ∧
              roles = following.map Role.positional ++ more := by
            by_cases hinline : (splitEquals token).2.isSome = true
            · exact ⟨[], roles, (if_pos hinline).symm, rfl⟩
            · obtain ⟨more, hfront⟩ := roles_front behind hmore
              exact ⟨_, more, (if_neg hinline).symm, hfront⟩
          have hpiece : pieceAt surfaceFlags cli passthrough token (roles.flatMap Role.tokens ++ tail behind) =
              some (.setAside token following, following.length) := by
            unfold pieceAt lookup
            dsimp only
            rw [hdeclared]
            dsimp only
            rw [if_pos hinherited, ← hfollowing]
          have htokens : roles.flatMap Role.tokens = following ++ more.flatMap Role.tokens := by
            conv_lhs => rw [hsplit]
            rw [List.flatMap_append, tokens_map_positional]
          have hshorter := congrArg List.length hsplit
          rw [List.length_append] at hshorter
          have hfewer : (more.flatMap Role.positionals).length ≤ (roles.flatMap Role.positionals).length := by
            conv_rhs => rw [hsplit]
            rw [List.flatMap_append, List.length_append]
            exact Nat.le_add_left _ _
          obtain ⟨pieces, hskim, hpieces⟩ := ih (show more.length ≤ m by omega)
            (fun r hr => hmore r (by rw [hsplit]; exact List.mem_append_right _ hr)) (by omega)
          refine ⟨.setAside token following :: pieces, ?_, ?_⟩
          · rw [List.flatMap_cons, Role.tokens, List.append_assoc, List.singleton_append, skim, if_neg harg, hpiece]
            dsimp only
            rw [htokens, List.append_assoc, List.drop_left, hskim]
            rfl
          · rw [List.flatMap_cons, hpieces]
            show (token :: following).map Role.positional ++ more = _
            rw [List.map_cons, List.cons_append, ← hsplit]
        · refine hstep [] harg rfl ?_
          unfold pieceAt lookup
          dsimp only
          rw [hdeclared]
          dsimp only
          rw [if_neg hinherited]
          dsimp only
          rw [if_pos (by rw [Bool.not_eq_true']; exact hrole.symm)]
          rfl

end

end LlmGateway.Upstream
