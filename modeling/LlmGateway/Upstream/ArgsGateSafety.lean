import LlmGateway.Upstream.ArgsGrammar

/-!
# What the gate of the arguments accepts

* `validate_iff` — a command line is accepted exactly if its tokens can be skimmed, every inherited name among them has values,
  and the others keep to the contract;
* `grammatical_iff` — it is in the grammar exactly if they can be skimmed, and keep to it with those that were set aside;
* `validateUpstreamCliArgs_iff` — where the two agree.
-/

namespace LlmGateway.Upstream

open Lib Lib.Utf16
open Workspace (CliType)

section
variable {surfaceFlags : SurfaceFlags} {cli : CliType} {passthrough : Passthrough} {resumeContext : Bool}

/-! ## Results without a violation -/

theorem clean_through (cli : CliType) (s : Scan) (pieces : List Piece) :
    (pieces.foldl (Scan.taken cli) s).violations = s.violations ∧
      (pieces.foldl (Scan.taken cli) s).positionals = s.positionals ++ pieces.flatMap Piece.positionals ∧
      (pieces.foldl (Scan.taken cli) s).presentFlags = s.presentFlags ++ pieces.flatMap Piece.present := by
  induction pieces generalizing s with
  | nil => simp
  | cons piece pieces ih =>
    obtain ⟨hviolations, hpositionals, hpresent⟩ := ih (s.taken cli piece)
    rw [List.foldl_cons, List.flatMap_cons, List.flatMap_cons]
    refine ⟨hviolations, ?_, ?_⟩
    · rw [hpositionals, ← List.append_assoc]
      rfl
    · rw [hpresent, ← List.append_assoc]
      rfl

/-- The command line as a whole keeps to the contract. -/
theorem closingViolations_eq_nil {s : Scan} {names : List Text} {behind : Option (List Text)}
    (hend : s.endOfOptions = behind.isSome) (hprompts : s.endOfOptionsPositionals = behind.getD [])
    (hnames : ∀ name, startsWithHyphen name = true → (name ∈ s.presentFlags ↔ name ∈ names))
    (hpermitted : ∀ name ∈ names, name ∉ forbiddenFlags cli resumeContext) :
    closingViolations cli resumeContext s = [] ↔
      s.positionals.length ≤ maxPositionals cli resumeContext ∧ (∀ ts ∈ behind, ts.length = 1) ∧
        Kept cli resumeContext names behind.isSome := by
  have hpresent (name : Text) (hname : startsWithHyphen name = true) : s.presentFlags.contains name = names.contains name := by
    rw [Bool.eq_iff_iff, List.contains_iff_mem, List.contains_iff_mem, hnames name hname]
  obtain ⟨-, hrequired, hexclusive⟩ := lists_table cli
  have hmany (c : Prop) [Decidable c] (v : ContractViolation) : (if c then [v] else []) = [] ↔ ¬c := by
    split_ifs with h <;> simp [h]
  have hbehind : ¬((s.endOfOptionsPositionals ≠ [] ∨ s.endOfOptions = true) ∧
      ((!(UPSTREAM_CLI_CONTRACTS cli).allowsEndOfOptionsPrompt) = true ∨ s.endOfOptionsPositionals.length ≠ 1)) ↔
      (∀ ts ∈ behind, ts.length = 1) ∧
        (behind.isSome = true → (UPSTREAM_CLI_CONTRACTS cli).allowsEndOfOptionsPrompt = true) := by
    rw [hend, hprompts]
    cases behind with
    | none => simp
    | some ts =>
      cases (UPSTREAM_CLI_CONTRACTS cli).allowsEndOfOptionsPrompt <;> simp
  have hgroups : (((UPSTREAM_CLI_CONTRACTS cli).requiredRequestFlagGroups.filter fun group =>
      !group.any fun flag => s.presentFlags.contains flag) = []) ↔
      ∀ group ∈ (UPSTREAM_CLI_CONTRACTS cli).requiredRequestFlagGroups, ∃ name ∈ group, name ∈ names := by
    rw [List.filter_eq_nil_iff]
    refine forall₂_congr fun group hgroup => ?_
    rw [Bool.not_eq_true, Bool.not_eq_false', List.any_eq_true]
    refine exists_congr fun name => and_congr_right fun hname => ?_
    rw [hpresent name (hrequired group hgroup name hname), List.contains_iff_mem]
  have halternatives : (((UPSTREAM_CLI_CONTRACTS cli).mutuallyExclusiveFlagGroups.filter fun group =>
      decide (1 < (group.filter fun flag => s.presentFlags.contains flag).length)) = []) ↔
      ∀ group ∈ (UPSTREAM_CLI_CONTRACTS cli).mutuallyExclusiveFlagGroups,
        (group.filter fun name => names.contains name).length ≤ 1 := by
    rw [List.filter_eq_nil_iff]
    refine forall₂_congr fun group hgroup => ?_
    rw [decide_eq_true_eq, Nat.not_lt, List.filter_congr fun name hname => hpresent name (hexclusive group hgroup name hname)]
  unfold closingViolations
  dsimp only
  rw [List.append_eq_nil_iff, List.append_eq_nil_iff, List.append_eq_nil_iff, hmany, hmany, Nat.not_lt, hbehind,
    List.map_eq_nil_iff, List.map_eq_nil_iff, hgroups, halternatives]
  constructor
  · rintro ⟨⟨⟨hcount, hone, hallows⟩, hsome⟩, hfew⟩
    exact ⟨hcount, hone, hpermitted, hallows, hsome, hfew⟩
  · rintro ⟨hcount, hone, -, hallows, hsome, hfew⟩
    exact ⟨⟨⟨hcount, hone, hallows⟩, hsome⟩, hfew⟩

/-! ## What is accepted -/

/-- The tokens can be skimmed; so many of them are positional, and the other ones keep to the contract. -/
structure Skimmed (surfaceFlags : SurfaceFlags) (cli : CliType) (passthrough : Passthrough) (resumeContext : Bool)
    (tokens : List Text) (pieces : List Piece) (behind : Option (List Text)) : Prop where
  skim : skim surfaceFlags cli passthrough tokens = some (pieces, behind)
  prompt : ∀ ts ∈ behind, ts.length = 1
  kept : Kept cli resumeContext (pieces.flatMap Piece.names) behind.isSome

theorem scanned_iff {tokens : List Text} (i : ℕ) :
    (∃ s, scan surfaceFlags cli passthrough resumeContext {} i tokens = some s ∧ (resultOf cli resumeContext s).ok = true) ↔
      ∃ pieces behind, Skimmed surfaceFlags cli passthrough resumeContext tokens pieces behind ∧ (∀ p ∈ pieces, p.Served) ∧
        (pieces.flatMap Piece.positionals).length ≤ maxPositionals cli resumeContext := by
  have hok (s : Scan) : (resultOf cli resumeContext s).ok = true ↔
      s.violations = [] ∧ closingViolations cli resumeContext s = [] := by
    show (s.violations ++ closingViolations cli resumeContext s).isEmpty = true ↔ _
    rw [List.isEmpty_iff, List.append_eq_nil_iff]
  have hclosing {pieces : List Piece} {behind : Option (List Text)}
      (hskim : skim surfaceFlags cli passthrough tokens = some (pieces, behind))
      (hpermitted : ∀ name ∈ pieces.flatMap Piece.names, name ∉ forbiddenFlags cli resumeContext) :
      closingViolations cli resumeContext (Scan.through cli {} pieces behind) = [] ↔
        (pieces.flatMap Piece.positionals).length ≤ maxPositionals cli resumeContext ∧ (∀ ts ∈ behind, ts.length = 1) ∧
          Kept cli resumeContext (pieces.flatMap Piece.names) behind.isSome := by
    obtain ⟨-, hpositionals, hpresent⟩ := clean_through cli {} pieces
    have hnames (name : Text) (hname : startsWithHyphen name = true) :
        name ∈ (Scan.through cli {} pieces behind).presentFlags ↔ name ∈ pieces.flatMap Piece.names := by
      show name ∈ (pieces.foldl (Scan.taken cli) {}).presentFlags ↔ _
      rw [hpresent, List.nil_append]
      refine ⟨fun h => (skim_spec hskim).2.2 name h hname, fun h => ?_⟩
      obtain ⟨piece, hpiece, hmem⟩ := List.mem_flatMap.1 h
      refine List.mem_flatMap.2 ⟨piece, hpiece, ?_⟩
      cases piece with
      | role r => exact hmem
      | setAside token following => cases hmem
    rw [closingViolations_eq_nil (s := Scan.through cli {} pieces behind) rfl rfl hnames hpermitted]
    show (pieces.foldl (Scan.taken cli) {}).positionals.length ≤ _ ∧ _ ↔ _
    rw [hpositionals, List.nil_append]
  constructor
  · rintro ⟨s, hscan, hclean⟩
    rw [hok] at hclean
    obtain ⟨pieces, behind, hskim, hserved, hpermitted, -, rfl⟩ := (scan_iff _ le_rfl rfl rfl rfl).1 ⟨hscan, hclean.1⟩
    obtain ⟨hcount, hprompt, hkept⟩ := (hclosing hskim hpermitted).1 hclean.2
    exact ⟨pieces, behind, ⟨hskim, hprompt, hkept⟩, hserved, hcount⟩
  · rintro ⟨pieces, behind, ⟨hskim, hprompt, hkept⟩, hserved, hcount⟩
    obtain ⟨hscan, hclean⟩ := (scan_iff (s := {}) (i := i) _ le_rfl rfl rfl rfl).2
      ⟨pieces, behind, hskim, hserved, hkept.permitted, hkept.prompt, rfl⟩
    exact ⟨_, hscan, (hok _).2 ⟨hclean, (hclosing hskim hkept.permitted).2 ⟨hcount, hprompt, hkept⟩⟩⟩

theorem behind_of_none {args tokens : List Text} (h : (UPSTREAM_CLI_CONTRACTS cli).command = none) :
    Behind cli args resumeContext tokens ↔ resumeContext = false ∧ tokens = args := by
  constructor
  · intro hbehind
    cases hbehind with
    | plain _ => exact ⟨rfl, rfl⟩
    | first hsome _ | resume hsome _ =>
      rw [h] at hsome
      cases hsome
  · rintro ⟨rfl, rfl⟩
    exact .plain h

theorem behind_of_some {args tokens : List Text} {c : Command} {second : Text}
    (h : (UPSTREAM_CLI_CONTRACTS cli).command = some c) (hsecond : c.optionalSecondArg = some second) :
    Behind cli args resumeContext tokens ↔
      (resumeContext = false ∧ args = c.requiredFirstArg :: tokens ∧ tokens.head? ≠ some second) ∨
        (resumeContext = true ∧ args = c.requiredFirstArg :: second :: tokens) := by
  constructor
  · intro hbehind
    cases hbehind with
    | plain hnone =>
      rw [h] at hnone
      cases hnone
    | first hsome hnext =>
      rw [h] at hsome
      cases hsome
      rw [hsecond] at hnext
      exact .inl ⟨rfl, rfl, hnext⟩
    | resume hsome hs =>
      rw [h] at hsome
      cases hsome
      rw [hsecond] at hs
      cases hs
      exact .inr ⟨rfl, rfl⟩
  · rintro (⟨rfl, rfl, hnext⟩ | ⟨rfl, rfl⟩)
    · exact .first h (by rwa [hsecond])
    · exact .resume h hsecond

theorem behind_unique {args tokens tokens' : List Text} {resumeContext' : Bool} (h : Behind cli args resumeContext tokens)
    (h' : Behind cli args resumeContext' tokens') : resumeContext' = resumeContext ∧ tokens' = tokens := by
  cases hcommand : (UPSTREAM_CLI_CONTRACTS cli).command with
  | none =>
    obtain ⟨rfl, rfl⟩ := (behind_of_none hcommand).1 h
    exact (behind_of_none hcommand).1 h'
  | some c =>
    obtain ⟨second, hsecond⟩ := command_table cli c hcommand
    rw [behind_of_some hcommand hsecond] at h h'
    rcases h with ⟨rfl, rfl, hnext⟩ | ⟨rfl, rfl⟩ <;> rcases h' with ⟨rfl, heq, hnext'⟩ | ⟨rfl, heq⟩
    · exact ⟨rfl, (List.cons.inj heq).2.symm⟩
    · rw [(List.cons.inj heq).2] at hnext
      exact absurd rfl hnext
    · rw [← (List.cons.inj heq).2] at hnext'
      exact absurd rfl hnext'
    · exact ⟨rfl, (List.cons.inj (List.cons.inj heq).2).2.symm⟩

/-- **What the gate accepts.** -/
theorem validate_iff {args : List Text} :
    (∃ r, validateUpstreamCliArgs surfaceFlags cli args passthrough = some r ∧ r.ok = true) ↔
      ∃ resumeContext tokens, Behind cli args resumeContext tokens ∧ ∃ pieces behind,
        Skimmed surfaceFlags cli passthrough resumeContext tokens pieces behind ∧ (∀ p ∈ pieces, p.Served) ∧
          (pieces.flatMap Piece.positionals).length ≤ maxPositionals cli resumeContext := by
  have hscan (resumeContext : Bool) (i : ℕ) (tokens : List Text) :
      (∃ r, (scan surfaceFlags cli passthrough resumeContext {} i tokens).map (resultOf cli resumeContext) = some r ∧
          r.ok = true) ↔
        ∃ pieces behind, Skimmed surfaceFlags cli passthrough resumeContext tokens pieces behind ∧ (∀ p ∈ pieces, p.Served) ∧
          (pieces.flatMap Piece.positionals).length ≤ maxPositionals cli resumeContext := by
    rw [← scanned_iff i]
    cases scan surfaceFlags cli passthrough resumeContext {} i tokens <;> simp
  unfold validateUpstreamCliArgs
  cases hcommand : (UPSTREAM_CLI_CONTRACTS cli).command with
  | none =>
    dsimp only
    rw [hscan]
    constructor
    · exact fun h => ⟨false, args, .plain hcommand, h⟩
    · rintro ⟨resumeContext, tokens, hbehind, h⟩
      obtain ⟨rfl, rfl⟩ := (behind_of_none hcommand).1 hbehind
      exact h
  | some c =>
    obtain ⟨second, hsecond⟩ := command_table cli c hcommand
    dsimp only
    by_cases hfirst : args.head? = some c.requiredFirstArg
    · obtain ⟨rest, rfl⟩ : ∃ rest, args = c.requiredFirstArg :: rest := by
        cases args with
        | nil => cases hfirst
        | cons a rest => exact ⟨rest, by rw [Option.some_inj.1 hfirst]⟩
      rw [if_neg (not_not.2 hfirst), hsecond, List.tail_cons]
      by_cases hnext : rest.head? = some second
      · obtain ⟨rest', rfl⟩ : ∃ rest', rest = second :: rest' := by
          cases rest with
          | nil => cases hnext
          | cons a rest' => exact ⟨rest', by rw [Option.some_inj.1 hnext]⟩
        rw [if_pos hnext, hscan]
        constructor
        · exact fun h => ⟨true, rest', .resume hcommand hsecond, h⟩
        · rintro ⟨resumeContext, tokens, hbehind, h⟩
          obtain ⟨rfl, rfl⟩ := behind_unique (.resume hcommand hsecond) hbehind
          exact h
      · rw [if_neg hnext, hscan]
        have hplain : Behind cli (c.requiredFirstArg :: rest) false rest := .first hcommand (by rwa [hsecond])
        constructor
        · exact fun h => ⟨false, rest, hplain, h⟩
        · rintro ⟨resumeContext, tokens, hbehind, h⟩
          obtain ⟨rfl, rfl⟩ := behind_unique hplain hbehind
          exact h
    · rw [if_pos hfirst]
      refine iff_of_false ?_ ?_
      · rintro ⟨r, hr, hok⟩
        cases hr
        cases hok
      · rintro ⟨resumeContext, tokens, hbehind, -⟩
        rw [behind_of_some hcommand hsecond] at hbehind
        rcases hbehind with ⟨-, rfl, -⟩ | ⟨-, rfl⟩ <;> exact hfirst rfl

/-! ## What is in the grammar -/

theorem roles_names (pieces : List Piece) : (pieces.flatMap Piece.roles).flatMap Role.names = pieces.flatMap Piece.names := by
  have hnone (ts : List Text) : (ts.map Role.positional).flatMap Role.names = [] := by
    induction ts with
    | nil => rfl
    | cons t ts ih => exact ih
  rw [List.flatMap_assoc]
  refine List.flatMap_congr fun piece _ => ?_
  cases piece with
  | role r => exact List.flatMap_singleton ..
  | setAside token following => exact hnone (token :: following)

theorem roles_positionals (pieces : List Piece) : ((pieces.flatMap Piece.roles).flatMap Role.positionals).length =
    (pieces.flatMap Piece.positionals).length + (pieces.flatMap Piece.aside).length := by
  have hall (ts : List Text) : (ts.map Role.positional).flatMap Role.positionals = ts := by
    induction ts with
    | nil => rfl
    | cons t ts ih =>
      rw [List.map_cons, List.flatMap_cons, ih]
      rfl
  induction pieces with
  | nil => rfl
  | cons piece pieces ih =>
    simp only [List.flatMap_cons, List.flatMap_append, List.length_append]
    rw [ih]
    cases piece with
    | role r =>
      simp only [Piece.roles, Piece.positionals, Piece.aside, List.flatMap_singleton, List.length_nil]
      omega
    | setAside token following =>
      simp only [Piece.roles, Piece.positionals, Piece.aside, hall, List.length_nil]
      omega

theorem grammatical_iff {args : List Text} :
    Grammatical surfaceFlags cli args passthrough ↔
      ∃ resumeContext tokens, Behind cli args resumeContext tokens ∧ ∃ pieces behind,
        Skimmed surfaceFlags cli passthrough resumeContext tokens pieces behind ∧
          (pieces.flatMap Piece.positionals).length + (pieces.flatMap Piece.aside).length ≤ maxPositionals cli resumeContext := by
  constructor
  · rintro ⟨resumeContext, r, hbehind, hgood⟩
    obtain ⟨pieces, hskim, hpieces⟩ := skim_complete (r.prompt.map fun p => [p]) _ le_rfl hgood.wellFormed
      hgood.positionals
    have htail : tail (r.prompt.map fun p => [p]) = promptTokens r.prompt := by
      cases r.prompt <;> rfl
    refine ⟨resumeContext, r.tokens, hbehind, pieces, r.prompt.map fun p => [p], ⟨?_, ?_, ?_⟩, ?_⟩
    · rw [Reading.tokens, ← htail]
      exact hskim
    · intro ts hts
      obtain ⟨p, -, rfl⟩ := Option.map_eq_some_iff.1 hts
      rfl
    · have hkept := hgood.kept
      rwa [Reading.names, ← hpieces, roles_names, ← Option.isSome_map (f := fun p => [p])] at hkept
    · rw [← roles_positionals, hpieces]
      exact hgood.positionals
  · rintro ⟨resumeContext, tokens, hbehind, pieces, behind, ⟨hskim, hprompt, hkept⟩, hcount⟩
    obtain ⟨hwellFormed, rfl, -⟩ := skim_spec hskim
    obtain ⟨prompt, htail, hsome⟩ : ∃ prompt, tail behind = promptTokens prompt ∧ behind.isSome = prompt.isSome := by
      cases behind with
      | none => exact ⟨none, rfl, rfl⟩
      | some ts =>
        obtain ⟨p, rfl⟩ := List.length_eq_one_iff.1 (hprompt ts rfl)
        exact ⟨some p, rfl, rfl⟩
    refine ⟨resumeContext, ⟨pieces.flatMap Piece.roles, prompt⟩, ?_, hwellFormed, ?_, ?_⟩
    · rw [Reading.tokens, ← htail]
      exact hbehind
    · rw [roles_positionals]
      exact hcount
    · rw [Reading.names, roles_names, ← hsome]
      exact hkept

/-! ## Where the two agree -/

/-- **The names that every object inherits do no harm**: where the rest of the command line keeps to the contract, they are
followed by values exactly if they and those values might be positional as well. -/
def Harmless (surfaceFlags : SurfaceFlags) (cli : CliType) (args : List Text) (passthrough : Passthrough) : Prop :=
  ∀ resumeContext tokens pieces behind, Behind cli args resumeContext tokens →
    Skimmed surfaceFlags cli passthrough resumeContext tokens pieces behind →
    (pieces.flatMap Piece.positionals).length ≤ maxPositionals cli resumeContext →
    ((∀ p ∈ pieces, p.Served) ↔
      (pieces.flatMap Piece.positionals).length + (pieces.flatMap Piece.aside).length ≤ maxPositionals cli resumeContext)

/-- They do none where no inherited name stands where a flag or a positional token may begin. -/
theorem harmless_of_none_aside {args : List Text}
    (h : ∀ resumeContext tokens pieces behind, Behind cli args resumeContext tokens →
      skim surfaceFlags cli passthrough tokens = some (pieces, behind) →
        ∀ token following, Piece.setAside token following ∉ pieces) : Harmless surfaceFlags cli args passthrough := by
  intro resumeContext tokens pieces behind hbehind hskimmed hcount
  have hroles : ∀ p ∈ pieces, p.Served ∧ p.aside = [] := by
    intro p hp
    cases p with
    | role r => exact ⟨trivial, rfl⟩
    | setAside token following => exact absurd hp (h _ _ _ _ hbehind hskimmed.skim token following)
  rw [List.flatMap_eq_nil_iff.2 fun p hp => (hroles p hp).2]
  exact iff_of_true (fun p hp => (hroles p hp).1) hcount

/-- **The gate accepts exactly its grammar where inherited names do no harm.** -/
theorem validateUpstreamCliArgs_iff (surfaceFlags : SurfaceFlags) (cli : CliType) (args : List Text) (passthrough : Passthrough) :
    ((∃ r, validateUpstreamCliArgs surfaceFlags cli args passthrough = some r ∧ r.ok = true) ↔
        Grammatical surfaceFlags cli args passthrough) ↔ Harmless surfaceFlags cli args passthrough := by
  rw [validate_iff, grammatical_iff]
  constructor
  · intro h resumeContext tokens pieces behind hbehind hskimmed hcount
    have hsame {resumeContext' : Bool} {tokens' : List Text} {pieces' : List Piece} {behind' : Option (List Text)}
        (hb : Behind cli args resumeContext' tokens')
        (hs : Skimmed surfaceFlags cli passthrough resumeContext' tokens' pieces' behind') :
        resumeContext' = resumeContext ∧ pieces' = pieces := by
      obtain ⟨rfl, rfl⟩ := behind_unique hbehind hb
      have heq := hs.skim.symm.trans hskimmed.skim
      exact ⟨rfl, (Prod.mk.inj (Option.some.inj heq)).1⟩
    constructor
    · intro hserved
      obtain ⟨r, ts, hb, ps, b, hs, hfew⟩ := h.1 ⟨resumeContext, tokens, hbehind, pieces, behind, hskimmed, hserved, hcount⟩
      obtain ⟨rfl, rfl⟩ := hsame hb hs
      exact hfew
    · intro hfew
      obtain ⟨r, ts, hb, ps, b, hs, hserved, -⟩ := h.2 ⟨resumeContext, tokens, hbehind, pieces, behind, hskimmed, hfew⟩
      obtain ⟨rfl, rfl⟩ := hsame hb hs
      exact hserved
  · intro h
    constructor
    · rintro ⟨resumeContext, tokens, hbehind, pieces, behind, hskimmed, hserved, hcount⟩
      exact ⟨resumeContext, tokens, hbehind, pieces, behind, hskimmed, (h _ _ _ _ hbehind hskimmed hcount).1 hserved⟩
    · rintro ⟨resumeContext, tokens, hbehind, pieces, behind, hskimmed, hfew⟩
      have hcount := (Nat.le_add_right _ _).trans hfew
      exact ⟨resumeContext, tokens, hbehind, pieces, behind, hskimmed, (h _ _ _ _ hbehind hskimmed hcount).2 hfew, hcount⟩

end

/-- A prompt that is the name of an inherited property. -/
def toStringPrompt : List Text := [text "--print", text "toString"]

/-- **A positional token is refused because it is `toString`.** -/
theorem toString_is_refused :
    ¬((∃ r, validateUpstreamCliArgs (fun _ _ => none) .cursor toStringPrompt [] = some r ∧ r.ok = true) ↔
      Grammatical (fun _ _ => none) .cursor toStringPrompt []) := by
  have hrefused : (validateUpstreamCliArgs (fun _ _ => none) .cursor toStringPrompt []).map (·.ok) = some false := by
    decide +kernel
  have hreading : Grammatical (fun _ _ => none) .cursor toStringPrompt [] := by
    refine ⟨false, ⟨[.flag (text "--print") [], .positional (text "toString")], none⟩, .plain rfl, ?_, by decide +kernel,
      by decide, by rintro ⟨⟩, by decide +kernel, by decide +kernel⟩
    refine List.forall_mem_cons.2 ⟨⟨by decide, by decide, { arity := .none }, rfl, ⟨rfl, by simp, by simp⟩⟩, ?_⟩
    exact List.forall_mem_singleton.2 (.inl (by decide))
  intro h
  obtain ⟨r, hr, hok⟩ := h.2 hreading
  rw [hr, Option.map_some, hok] at hrefused
  cases hrefused

end LlmGateway.Upstream
