import LlmGateway.Executor.InputLimits
import Mathlib.Algebra.Order.BigOperators.Group.List
import Mathlib.Algebra.Order.Group.Nat

/-!
# What the preflight admits

* `byteLength_escaped_le` — an escaped argument is no longer than the preflight has counted for it;
* `windows_preflight_is_conservative` — both, and what the preflight admits the checks in front of the spawn do not find too large,
  where the environment by itself is not.
-/

namespace LlmGateway.Executor

open Lib Lib.Utf16

/-! ## Texts of one byte a character -/

theorem byteLength_replicate (n : ℕ) : byteLength (List.replicate n 92) = n := by
  rw [byteLength_of_ascii, List.length_replicate]
  intro u hu
  rw [List.eq_of_mem_replicate hu]
  decide

theorem byteLength_slashes_append_le (n : ℕ) (s : Text) : byteLength (List.replicate n 92 ++ s) ≤ n + byteLength s := by
  have h := byteLength_append_le (List.replicate n 92) s
  rwa [byteLength_replicate] at h

theorem byteLength_cons_ascii_le {u : UInt16} (hu : u < 0x80) (s : Text) : byteLength (u :: s) ≤ 1 + byteLength s := by
  have h := byteLength_cons_le u s
  rwa [unitBytes, if_pos hu] at h

/-! ## One argument for cmd.exe -/

theorem escapeWindowsCmdMetaChars_append (s t : Text) :
    escapeWindowsCmdMetaChars (s ++ t) = escapeWindowsCmdMetaChars s ++ escapeWindowsCmdMetaChars t := by
  induction s with
  | nil => rfl
  | cons u s ih =>
    rw [List.cons_append, escapeWindowsCmdMetaChars, escapeWindowsCmdMetaChars, ih]
    split_ifs <;> rfl

theorem escapeWindowsCmdMetaChars_slashes (n : ℕ) :
    escapeWindowsCmdMetaChars (List.replicate n 92) = List.replicate n 92 := by
  induction n with
  | zero => rfl
  | succ n ih =>
    have hslash : ¬WINDOWS_CMD_META_CHARS.contains 92 = true := by decide
    rw [List.replicate_succ, escapeWindowsCmdMetaChars, if_neg hslash, ih]

/-- The metacharacters are ASCII, and none of them is one of the safe characters. -/
theorem metaChars_counted : ∀ u ∈ WINDOWS_CMD_META_CHARS, u < 0x80 ∧ pointValue [u] ≤ 0x7f ∧ safeAscii [u] = false := by
  decide

/-- What the preflight counts for a character that is no backslash and no quote. -/
def countOf (character : Text) : ℕ :=
  (if pointValue character ≤ 0x7f then 1 else byteLength character) +
    (if pointValue character ≤ 0x7f ∧ safeAscii character = false then 1 else 0)

theorem unitBytes_le_countOf (u : UInt16) : unitBytes u ≤ countOf [u] := by
  rw [countOf]
  by_cases hu : pointValue [u] ≤ 0x7f
  · have hascii : u < 0x80 := by
      rw [UInt16.lt_iff_toNat_lt]
      exact Nat.lt_succ_of_le hu
    rw [if_pos hu, unitBytes, if_pos hascii]
    exact Nat.le_add_right _ _
  · rw [if_neg hu, byteLength_singleton]
    exact Nat.le_add_right _ _

/-- One code unit, escaped, and what follows. -/
theorem byteLength_escaped_cons_le (u : UInt16) (s : Text) :
    byteLength (escapeWindowsCmdMetaChars (u :: s)) ≤ countOf [u] + byteLength (escapeWindowsCmdMetaChars s) := by
  rw [escapeWindowsCmdMetaChars]
  split_ifs with hmeta
  · obtain ⟨hascii, hvalue, hunsafe⟩ := metaChars_counted u (List.contains_iff_mem.1 hmeta)
    have hcaret := byteLength_cons_ascii_le (u := 94) (by decide) (u :: escapeWindowsCmdMetaChars s)
    have hchar := byteLength_cons_ascii_le hascii (escapeWindowsCmdMetaChars s)
    rw [countOf, if_pos hvalue, if_pos ⟨hvalue, hunsafe⟩]
    omega
  · have hchar := byteLength_cons_le u (escapeWindowsCmdMetaChars s)
    have hcount := unitBytes_le_countOf u
    omega

/-- Both halves of a pair. -/
theorem byteLength_escaped_pair {u v : UInt16} (hu : isLead u = true) (hv : isTrail v = true) (s : Text) :
    byteLength (escapeWindowsCmdMetaChars (u :: v :: s)) = 4 + byteLength (escapeWindowsCmdMetaChars s) := by
  have hno (w : UInt16) (hw : isSurrogate w = true) : ¬WINDOWS_CMD_META_CHARS.contains w = true := by
    intro hmeta
    have hall : ∀ w ∈ WINDOWS_CMD_META_CHARS, isSurrogate w = false := by decide
    rw [hall w (List.contains_iff_mem.1 hmeta)] at hw
    cases hw
  rw [escapeWindowsCmdMetaChars, if_neg (hno u (by rw [isSurrogate, hu, Bool.true_or])), escapeWindowsCmdMetaChars,
    if_neg (hno v (by rw [isSurrogate, hv, Bool.or_true])), byteLength_cons_cons, if_pos (Bool.and_eq_true_iff.2 ⟨hu, hv⟩)]

theorem countOf_pair {u v : UInt16} (hu : isLead u = true) (hv : isTrail v = true) : 4 ≤ countOf [u, v] := by
  have hvalue : ¬pointValue [u, v] ≤ 0x7f := by
    have hplane := (surrogates_pointValue hu hv).2
    omega
  have hbytes : byteLength [u, v] = 4 := by
    rw [byteLength_cons_cons, if_pos (Bool.and_eq_true_iff.2 ⟨hu, hv⟩), byteLength]
  rw [countOf, if_neg hvalue, hbytes]
  omega

/-- The loop of the preflight on a character that is no backslash and no quote. -/
theorem preflightOfArgument_other {character : Text} (hslash : character ≠ [92]) (hquote : character ≠ [34]) (n : ℕ)
    (rest : List Text) :
    preflightOfArgument n (character :: rest) = n + countOf character + preflightOfArgument 0 rest := by
  rw [preflightOfArgument, if_neg hslash, if_neg hquote, countOf, ← Nat.add_assoc]

theorem not_slash_of_isSurrogate {u : UInt16} (hu : isSurrogate u = true) : u ≠ 92 ∧ u ≠ 34 := by
  constructor <;> rintro rfl <;> exact absurd hu (by decide)

/-- The step of both loops on one code unit. -/
theorem escaped_unit_le {u : UInt16} {s : Text}
    (ih : ∀ n, byteLength (escapeWindowsCmdMetaChars (encodeWindowsArg n s)) ≤ preflightOfArgument n (points s)) (n : ℕ) :
    byteLength (escapeWindowsCmdMetaChars (encodeWindowsArg n (u :: s))) ≤ preflightOfArgument n ([u] :: points s) := by
  rw [encodeWindowsArg]
  split_ifs with hslash hquote
  · rw [preflightOfArgument, if_pos (by rw [hslash])]
    exact ih (n + 1)
  · rw [preflightOfArgument, if_neg (by simpa using hslash), if_pos (by rw [hquote]), escapeWindowsCmdMetaChars_append,
      escapeWindowsCmdMetaChars_slashes]
    have hslashes := byteLength_slashes_append_le (n * 2 + 1) (escapeWindowsCmdMetaChars (34 :: encodeWindowsArg 0 s))
    have hchar := byteLength_escaped_cons_le 34 (encodeWindowsArg 0 s)
    have hcount : countOf [34] = 2 := by decide
    have hrest := ih 0
    omega
  · rw [preflightOfArgument_other (by simpa using hslash) (by simpa using hquote), escapeWindowsCmdMetaChars_append,
      escapeWindowsCmdMetaChars_slashes]
    have hslashes := byteLength_slashes_append_le n (escapeWindowsCmdMetaChars (u :: encodeWindowsArg 0 s))
    have hchar := byteLength_escaped_cons_le u (encodeWindowsArg 0 s)
    have hrest := ih 0
    omega

theorem encodeWindowsArg_pair {u v : UInt16} (hu : isLead u = true) (hv : isTrail v = true) (s : Text) (n : ℕ) :
    encodeWindowsArg n (u :: v :: s) = List.replicate n 92 ++ u :: v :: encodeWindowsArg 0 s := by
  have hlead := not_slash_of_isSurrogate (u := u) (by rw [isSurrogate, hu, Bool.true_or])
  have htrail := not_slash_of_isSurrogate (u := v) (by rw [isSurrogate, hv, Bool.or_true])
  rw [encodeWindowsArg, if_neg hlead.1, if_neg hlead.2, encodeWindowsArg, if_neg htrail.1, if_neg htrail.2, List.replicate_zero,
    List.nil_append]

/-- **An escaped argument is no longer than the preflight has counted for it.** -/
theorem byteLength_escaped_le (s : Text) (n : ℕ) :
    byteLength (escapeWindowsCmdMetaChars (encodeWindowsArg n s)) ≤ preflightOfArgument n (points s) := by
  induction s using points.induct generalizing n with
  | case1 =>
    rw [encodeWindowsArg, escapeWindowsCmdMetaChars_slashes, byteLength_replicate]
    exact le_rfl
  | case2 u => exact escaped_unit_le (s := []) (fun k => by
      rw [encodeWindowsArg, escapeWindowsCmdMetaChars_slashes, byteLength_replicate]
      exact le_rfl) n
  | case3 u v s hpair ih =>
    obtain ⟨hu, hv⟩ := Bool.and_eq_true_iff.1 hpair
    rw [points, if_pos hpair, preflightOfArgument_other (by simp) (by simp), encodeWindowsArg_pair hu hv,
      escapeWindowsCmdMetaChars_append, escapeWindowsCmdMetaChars_slashes]
    have hslashes := byteLength_slashes_append_le n (escapeWindowsCmdMetaChars (u :: v :: encodeWindowsArg 0 s))
    have hchars := byteLength_escaped_pair hu hv (encodeWindowsArg 0 s)
    have hcount := countOf_pair hu hv
    have hrest := ih 0
    omega
  | case4 u v s hpair ih =>
    rw [points, if_neg hpair]
    exact escaped_unit_le ih n

/-! ## One argument for a native program -/

/-- **A quoted argument is at most twice as long**, its quotes apart. -/
theorem byteLength_encodeWindowsArg_le (s : Text) (n : ℕ) :
    byteLength (encodeWindowsArg n s) ≤ n * 2 + byteLength s * 2 := by
  -- the step on one code unit; what follows is measured by itself
  have hunit {u : UInt16} {s : Text} (ih : ∀ n, byteLength (encodeWindowsArg n s) ≤ n * 2 + byteLength s * 2) (n : ℕ) :
      byteLength (encodeWindowsArg n (u :: s)) ≤ n * 2 + (unitBytes u + byteLength s) * 2 := by
    rw [encodeWindowsArg]
    split_ifs with hslash hquote
    · have hbytes : unitBytes u = 1 := by
        rw [hslash]
        decide
      have hrest := ih (n + 1)
      omega
    · have hbytes : unitBytes u = 1 := by
        rw [hquote]
        decide
      have hslashes := byteLength_slashes_append_le (n * 2 + 1) (34 :: encodeWindowsArg 0 s)
      have hchar := byteLength_cons_ascii_le (u := 34) (by decide) (encodeWindowsArg 0 s)
      have hrest := ih 0
      omega
    · have hslashes := byteLength_slashes_append_le n (u :: encodeWindowsArg 0 s)
      have hchar := byteLength_cons_le u (encodeWindowsArg 0 s)
      have hrest := ih 0
      omega
  have hnil (n : ℕ) : byteLength (encodeWindowsArg n []) ≤ n * 2 + byteLength [] * 2 := by
    rw [encodeWindowsArg, byteLength_replicate]
    exact Nat.le_add_right _ _
  induction s using points.induct generalizing n with
  | case1 => exact hnil n
  | case2 u => exact hunit hnil n
  | case3 u v s hpair ih =>
    obtain ⟨hu, hv⟩ := Bool.and_eq_true_iff.1 hpair
    rw [encodeWindowsArg_pair hu hv]
    have hslashes := byteLength_slashes_append_le n (u :: v :: encodeWindowsArg 0 s)
    rw [byteLength_cons_cons, if_pos hpair] at hslashes
    have hrest := ih 0
    rw [byteLength_cons_cons, if_pos hpair]
    omega
  | case4 u v s hpair ih =>
    rw [byteLength_cons_cons, if_neg hpair]
    exact hunit ih n

theorem byteLength_quoted_le (value : Text) :
    byteLength (quoteWindowsArgForCommandLineToArgv value) ≤ byteLength value * 2 + 2 := by
  have hopen := byteLength_cons_ascii_le (u := 34) (by decide) (encodeWindowsArg 0 value ++ [34])
  have hclose := byteLength_append_le (encodeWindowsArg 0 value) [34]
  have hone : byteLength [34] = 1 := rfl
  have hinner := byteLength_encodeWindowsArg_le value 0
  rw [quoteWindowsArgForCommandLineToArgv]
  omega

/-- The preflight counts at least the bytes of an argument. -/
theorem byteLength_le_preflight (s : Text) (n : ℕ) : n + byteLength s ≤ preflightOfArgument n (points s) := by
  have hunit {u : UInt16} {s : Text} (ih : ∀ n, n + byteLength s ≤ preflightOfArgument n (points s)) (n : ℕ) :
      n + (unitBytes u + byteLength s) ≤ preflightOfArgument n ([u] :: points s) := by
    by_cases hslash : u = 92
    · have hbytes : unitBytes u = 1 := by
        rw [hslash]
        decide
      rw [preflightOfArgument, if_pos (by rw [hslash])]
      have hrest := ih (n + 1)
      omega
    by_cases hquote : u = 34
    · have hbytes : unitBytes u = 1 := by
        rw [hquote]
        decide
      rw [preflightOfArgument, if_neg (by simpa using hslash), if_pos (by rw [hquote])]
      have hrest := ih 0
      omega
    · rw [preflightOfArgument_other (by simpa using hslash) (by simpa using hquote)]
      have hcount := unitBytes_le_countOf u
      have hrest := ih 0
      omega
  have hnil (n : ℕ) : n + byteLength [] ≤ preflightOfArgument n (points []) := by
    rw [points, preflightOfArgument, byteLength]
    omega
  induction s using points.induct generalizing n with
  | case1 => exact hnil n
  | case2 u => exact hunit hnil n
  | case3 u v s hpair ih =>
    obtain ⟨hu, hv⟩ := Bool.and_eq_true_iff.1 hpair
    rw [points, if_pos hpair, preflightOfArgument_other (by simp) (by simp), byteLength_cons_cons, if_pos hpair]
    have hcount := countOf_pair hu hv
    have hrest := ih 0
    omega
  | case4 u v s hpair ih =>
    rw [points, if_neg hpair, byteLength_cons_cons, if_neg hpair]
    exact hunit ih n

/-! ## Whole invocations -/

section
variable {normalize : Text → Text} {resolved command : Text} {args : List Text}

/-- The escaped path and the fixed tokens of cmd.exe take no more than the headroom. -/
def FitsHeadroom (normalize : Text → Text) (resolved : Text) : Prop :=
  measureCliArgvUtf8Bytes (text "cmd.exe") (shimArgs normalize resolved []) ≤ wrapperAndResolvedPathHeadroom

instance (normalize : Text → Text) (resolved : Text) : Decidable (FitsHeadroom normalize resolved) :=
  inferInstanceAs (Decidable (_ ≤ _))

theorem measure_shimArgs (args : List Text) :
    measureCliArgvUtf8Bytes (text "cmd.exe") (shimArgs normalize resolved args) =
      20 + byteLength (buildWindowsCmdCommand normalize resolved args) := by
  have hname : byteLength (text "cmd.exe") = 7 := by decide
  have hd : byteLength (text "/d") = 2 := by decide
  have hs : byteLength (text "/s") = 2 := by decide
  have hc : byteLength (text "/c") = 2 := by decide
  have hopen : isLead 34 = false := by decide
  have hquote : byteLength [34] = 1 := rfl
  have hunit : unitBytes 34 = 1 := by decide
  have htrail : ∀ u ∈ [(34 : UInt16)].head?, isTrail u = false := by
    intro u hu
    obtain rfl := Option.some.inj hu
    decide
  simp only [measureCliArgvUtf8Bytes, shimArgs, List.map_cons, List.map_nil, List.sum_cons, List.sum_nil, hname, hd, hs, hc]
  rw [byteLength_cons_of_not_lead hopen, byteLength_append_of_head htrail, hquote, hunit]
  omega

theorem byteLength_escapeWindowsCmdArgument_le (value : Text) :
    byteLength (escapeWindowsCmdArgument value) ≤ 4 + preflightOfArgument 0 (points value) := by
  have hquotes : countOf [34] = 2 := by decide
  have hopen := byteLength_escaped_cons_le 34 (encodeWindowsArg 0 value ++ [34])
  have happend := byteLength_append_le (escapeWindowsCmdMetaChars (encodeWindowsArg 0 value)) (escapeWindowsCmdMetaChars [34])
  have hclose : byteLength (escapeWindowsCmdMetaChars [34]) = 2 := by decide
  have hinner := byteLength_escaped_le value 0
  rw [escapeWindowsCmdMetaChars_append] at hopen
  rw [escapeWindowsCmdArgument, quoteWindowsArgForCommandLineToArgv]
  omega

theorem byteLength_arguments_le (args : List Text) :
    byteLength (args.flatMap fun value => 32 :: escapeWindowsCmdArgument value) ≤
      (args.map fun argument => 5 + preflightOfArgument 0 (points argument)).sum := by
  induction args with
  | nil => exact le_rfl
  | cons value args ih =>
    have happend := byteLength_append_le (32 :: escapeWindowsCmdArgument value)
      (args.flatMap fun value => 32 :: escapeWindowsCmdArgument value)
    have hblank := byteLength_cons_ascii_le (u := 32) (by decide) (escapeWindowsCmdArgument value)
    have hvalue := byteLength_escapeWindowsCmdArgument_le value
    rw [List.flatMap_cons, List.map_cons, List.sum_cons]
    omega

/-- **The preflight bounds the invocation of every shim** whose path fits the headroom. -/
theorem preflight_bounds_wrapper (hfits : FitsHeadroom normalize resolved) (command : Text) (args : List Text) :
    measureCliArgvUtf8Bytes (text "cmd.exe") (shimArgs normalize resolved args) ≤
      measureWindowsCmdWrapperPreflightUtf8UpperBound command args := by
  have happend := byteLength_append_le (escapeWindowsCmdCommand normalize resolved)
    (args.flatMap fun value => 32 :: escapeWindowsCmdArgument value)
  have harguments := byteLength_arguments_le args
  rw [FitsHeadroom, measure_shimArgs, buildWindowsCmdCommand, List.flatMap_nil, List.append_nil] at hfits
  rw [measure_shimArgs, buildWindowsCmdCommand, measureWindowsCmdWrapperPreflightUtf8UpperBound]
  omega

/-- A native command line: its tokens, each left alone or quoted, between blanks. -/
def nativeCommandLine (quoteToken : Text → Text) (command : Text) (args : List Text) : Text :=
  quoteToken command ++ args.flatMap fun argument => 32 :: quoteToken argument

/-- A token is left alone, or quoted by the rules of `CommandLineToArgvW`. -/
def QuotesTokens (quoteToken : Text → Text) : Prop :=
  ∀ value, quoteToken value = value ∨ quoteToken value = quoteWindowsArgForCommandLineToArgv value

theorem QuotesTokens.byteLength_le {quoteToken : Text → Text} (h : QuotesTokens quoteToken) (value : Text) :
    byteLength (quoteToken value) ≤ byteLength value * 2 + 2 := by
  rcases h value with hvalue | hvalue
  · rw [hvalue]
    omega
  · rw [hvalue]
    exact byteLength_quoted_le value

/-- **The native bound**, with the terminator of the line. -/
theorem measure_bounds_native {quoteToken : Text → Text} (h : QuotesTokens quoteToken) (command : Text) (args : List Text) :
    byteLength (nativeCommandLine quoteToken command args) + 1 ≤ measureWindowsCliArgvUtf8UpperBound command args := by
  have hargs : byteLength (args.flatMap fun argument => 32 :: quoteToken argument) ≤
      (args.map fun argument => byteLength argument * 2 + 3).sum := by
    induction args with
    | nil => exact le_rfl
    | cons value args ih =>
      have happend := byteLength_append_le (32 :: quoteToken value) (args.flatMap fun argument => 32 :: quoteToken argument)
      have hblank := byteLength_cons_ascii_le (u := 32) (by decide) (quoteToken value)
      have hvalue := h.byteLength_le value
      rw [List.flatMap_cons, List.map_cons, List.sum_cons]
      omega
  have happend := byteLength_append_le (quoteToken command) (args.flatMap fun argument => 32 :: quoteToken argument)
  have hcommand := h.byteLength_le command
  rw [nativeCommandLine, measureWindowsCliArgvUtf8UpperBound]
  omega

end

/-! ## Checks that find nothing too large -/

def NotTooLarge {α : Type} (r : Admission α) : Prop := ∀ e, r ≠ .error (.tooLarge e)

namespace NotTooLarge
variable {α β : Type} {r : Admission α}

theorem ok (a : α) : NotTooLarge (.ok a : Admission α) := by
  intro e h
  cases h

theorem bind {next : α → Admission β} (hr : NotTooLarge r) (hnext : ∀ a, NotTooLarge (next a)) : NotTooLarge (r >>= next) := by
  cases r with
  | error e =>
    intro e' h
    exact hr e' (congrArg Except.error (Except.error.inj h))
  | ok a => exact hnext a

end NotTooLarge

theorem notTooLarge_representable (value : Text) (context : CliInputLimitContext) :
    NotTooLarge (assertCliArgRepresentable value context) := by
  rw [assertCliArgRepresentable]
  split_ifs
  · intro e h
    cases h
  · exact .ok _

theorem notTooLarge_argument {value : Text} {context : CliInputLimitContext}
    (h : byteLength value ≤ context.maxUtf8Bytes.getD MAX_CLI_ARG_UTF8_BYTES) :
    NotTooLarge (assertCliArgUtf8Size value context) := by
  rw [assertCliArgUtf8Size]
  refine (notTooLarge_representable value context).bind fun _ => ?_
  rw [if_pos h]
  exact .ok _

theorem notTooLarge_each {α : Type*} {check : ℕ → α → Admission Unit} {xs : List α}
    (h : ∀ x ∈ xs, ∀ index, NotTooLarge (check index x)) (index : ℕ) : NotTooLarge (assertEach check index xs) := by
  induction xs generalizing index with
  | nil => exact .ok _
  | cons x xs ih =>
    exact (h x List.mem_cons_self index).bind fun _ => ih (fun y hy => h y (List.mem_cons_of_mem _ hy)) _

section
variable {platform : Platform} {command : Text} {args : List Text} {context : CliArgvLimitContext} {env : ProcessEnv}

theorem notTooLarge_argv (hcount : args.length ≤ MAX_CLI_ARGV_ELEMENTS)
    (hsize : (measureForSurface platform command args context).1 ≤ (measureForSurface platform command args context).2) :
    NotTooLarge (assertCliArgvUtf8Size platform command args context) := by
  rw [assertCliArgvUtf8Size]
  refine (notTooLarge_representable _ _).bind fun _ => (notTooLarge_each (fun x _ index => ?_) 0).bind fun _ => ?_
  · exact notTooLarge_representable _ _
  · rw [if_neg (Nat.not_lt.2 hcount)]
    simp only [if_pos hsize]
    exact .ok _

/-- What an admitted argv has been measured as. -/
theorem measured_of_admitted (h : assertCliArgvUtf8Size platform command args context = .ok ()) :
    args.length ≤ MAX_CLI_ARGV_ELEMENTS ∧
      (measureForSurface platform command args context).1 ≤ (measureForSurface platform command args context).2 := by
  rw [assertCliArgvUtf8Size] at h
  cases hcommand : assertCliArgRepresentable command ⟨context.provider, some (text "command"), none⟩ with
  | error e =>
    rw [hcommand] at h
    cases h
  | ok _ =>
    rw [hcommand] at h
    cases hargs : assertEach (fun index argument => assertCliArgRepresentable argument ⟨context.provider, some (argvName index), none⟩)
        0 args with
    | error e =>
      simp only [hargs] at h
      cases h
    | ok _ =>
      simp only [hargs] at h
      by_cases hcount : MAX_CLI_ARGV_ELEMENTS < args.length
      · have hthrow := (if_pos hcount).symm.trans h
        cases hthrow
      have hrest := (if_neg hcount).symm.trans h
      refine ⟨Nat.le_of_not_lt hcount, ?_⟩
      by_contra hsize
      have hthrow := (if_neg hsize).symm.trans hrest
      cases hthrow

/-- The environment is within the limits, beside an argv of so many elements. -/
structure EnvironmentFits (argv : ℕ) (env : ProcessEnv) : Prop where
  elements : ∀ entry ∈ env.entries, byteLength (entry.1 ++ text "=" ++ entry.2) ≤ MAX_CLI_ARG_UTF8_BYTES
  count : argv + env.entries.length ≤ MAX_CLI_PROCESS_ELEMENTS
  bytes : measureCliEnvironmentUtf8Bytes env ≤ MAX_CLI_ENV_UTF8_BYTES_WINDOWS

theorem mergeEnv_nil (env : ProcessEnv) : mergeEnv [] env = env := by
  simp [mergeEnv]

theorem notTooLarge_processInput (hargv : NotTooLarge (assertCliArgvUtf8Size platform command args context))
    (hwindows : context.platform.getD platform = .win32) (henv : EnvironmentFits args.length env) :
    NotTooLarge (assertCliProcessInputUtf8Size platform command args env context [] false) := by
  have htotal : ¬MAX_CLI_PROCESS_ELEMENTS < args.length + env.entries.length := Nat.not_lt_of_le henv.count
  have hbytes := henv.bytes
  rw [assertCliProcessInputUtf8Size]
  simp only [mergeEnv_nil]
  refine hargv.bind fun _ => (notTooLarge_each (fun entry hentry index => ?_) 0).bind fun _ => ?_
  · exact (notTooLarge_representable _ _).bind fun _ => (notTooLarge_representable _ _).bind fun _ =>
      notTooLarge_argument (henv.elements entry hentry)
  · rw [if_neg htotal, if_pos hwindows, if_neg Bool.false_ne_true, Nat.sub_zero, if_pos hbytes]
    exact .ok _

end

/-! ## From the preflight to the spawn -/

section
variable {normalize : Text → Text} {extension : Text → Text} {resolved : Option Text} {command : Text} {args : List Text}

/-- The path of a shim fits the headroom in its escaped form, another path as it is. -/
def PathFits (normalize extension : Text → Text) (path : Text) : Prop :=
  if extension path = text ".cmd" ∨ extension path = text ".bat" then FitsHeadroom normalize path
  else byteLength path ≤ wrapperAndResolvedPathHeadroom

/-- What the preflight has counted, with the number of the arguments and their bytes. -/
theorem preflight_counts (args : List Text) :
    args.length * 5 + (args.map byteLength).sum ≤ (args.map fun argument => 5 + preflightOfArgument 0 (points argument)).sum := by
  induction args with
  | nil => exact le_rfl
  | cons a args ih =>
    have ha := byteLength_le_preflight a 0
    rw [List.map_cons, List.sum_cons, List.map_cons, List.sum_cons, List.length_cons]
    omega

/-- The native bound of some arguments. -/
theorem nativeBound_eq (args : List Text) :
    (args.map fun argument => byteLength argument * 2 + 3).sum = (args.map byteLength).sum * 2 + args.length * 3 := by
  induction args with
  | nil => rfl
  | cons a args ih =>
    rw [List.map_cons, List.sum_cons, List.map_cons, List.sum_cons, List.length_cons, ih]
    omega

/-- The process that is started is no larger than its surface allows. -/
theorem resolved_fits (hadmitted : measureWindowsCmdWrapperPreflightUtf8UpperBound command args ≤ MAX_CLI_ARGV_UTF8_BYTES_WINDOWS_CMD)
    (hpath : ∀ path ∈ resolved, PathFits normalize extension path) :
    let spawned := resolveCommandForSpawn normalize .win32 resolved extension command args
    spawned.args.length ≤ 1300 ∧ (∀ argument ∈ spawned.args, byteLength argument ≤ MAX_CLI_ARG_UTF8_BYTES) ∧
      if spawned.windowsVerbatimArguments then
        measureCliArgvUtf8Bytes spawned.command spawned.args ≤ MAX_CLI_ARGV_UTF8_BYTES_WINDOWS_CMD
      else measureWindowsCliArgvUtf8UpperBound spawned.command spawned.args ≤ MAX_CLI_ARGV_UTF8_BYTES_WINDOWS := by
  have hcounts := preflight_counts args
  have hnative := nativeBound_eq args
  have hargs : ∀ argument ∈ args, byteLength argument ≤ (args.map byteLength).sum := by
    intro argument hargument
    exact List.single_le_sum (fun _ _ => Nat.zero_le _) _ (List.mem_map_of_mem hargument)
  have hbudget : wrapperAndResolvedPathHeadroom + byteLength command * 2 +
      (args.map fun argument => 5 + preflightOfArgument 0 (points argument)).sum ≤ 7500 := hadmitted
  simp only [wrapperAndResolvedPathHeadroom] at hbudget
  simp only [resolveCommandForSpawn, ne_eq, not_true_eq_false, if_false, MAX_CLI_ARG_UTF8_BYTES]
  -- an argv of its own, or one with a path of at most the headroom in front
  have hown (path : Text) (h : byteLength path ≤ 3238) : args.length ≤ 1300 ∧
      (∀ argument ∈ args, byteLength argument ≤ 128 * 1024 - 1) ∧
      measureWindowsCliArgvUtf8UpperBound path args ≤ MAX_CLI_ARGV_UTF8_BYTES_WINDOWS := by
    refine ⟨by omega, fun argument hargument => ?_, ?_⟩
    · have hbytes := hargs argument hargument
      omega
    · rw [measureWindowsCliArgvUtf8UpperBound, hnative, MAX_CLI_ARGV_UTF8_BYTES_WINDOWS]
      omega
  cases resolved with
  | none => exact hown command (by omega)
  | some path =>
    have hfits := hpath path rfl
    rw [PathFits, wrapperAndResolvedPathHeadroom] at hfits
    by_cases hps1 : extension path = text ".ps1"
    · have hother : ¬(extension path = text ".cmd" ∨ extension path = text ".bat") := by
        rw [hps1]
        decide
      rw [if_neg hother] at hfits
      simp only [if_pos hps1]
      have hprofile : byteLength (text "-NoProfile") = 10 := by decide
      have hpolicy : byteLength (text "-ExecutionPolicy") = 16 := by decide
      have hbypass : byteLength (text "Bypass") = 6 := by decide
      have hfile : byteLength (text "-File") = 5 := by decide
      have hname : byteLength (text "powershell.exe") = 14 := by decide
      refine ⟨?_, ?_, ?_⟩
      · simp only [List.length_append, List.length_cons, List.length_nil]
        omega
      · intro argument hargument
        rcases List.mem_append.1 hargument with hfixed | hargument
        · simp only [List.mem_cons, List.not_mem_nil, or_false] at hfixed
          rcases hfixed with rfl | rfl | rfl | rfl | rfl <;> omega
        · have hbytes := hargs argument hargument
          omega
      · simp only [Bool.false_eq_true, if_false, measureWindowsCliArgvUtf8UpperBound, List.map_append, List.sum_append,
          List.map_cons, List.map_nil, List.sum_cons, List.sum_nil, hprofile, hpolicy, hbypass, hfile, hname, hnative,
          MAX_CLI_ARGV_UTF8_BYTES_WINDOWS]
        omega
    · by_cases hshim : extension path = text ".cmd" ∨ extension path = text ".bat"
      · rw [if_pos hshim] at hfits
        simp only [if_neg hps1, if_pos hshim, if_true]
        have hbound := (preflight_bounds_wrapper hfits command args).trans hadmitted
        refine ⟨(by decide : 4 ≤ 1300), fun argument hargument => ?_, hbound⟩
        have hone : byteLength argument + 1 ≤ ((shimArgs normalize path args).map fun argument => byteLength argument + 1).sum :=
          List.single_le_sum (fun _ _ => Nat.zero_le _) _ (List.mem_map.2 ⟨argument, hargument, rfl⟩)
        rw [measureCliArgvUtf8Bytes, MAX_CLI_ARGV_UTF8_BYTES_WINDOWS_CMD] at hbound
        omega
      · rw [if_neg hshim] at hfits
        simp only [if_neg hps1, if_neg hshim]
        exact hown path (by omega)

theorem notTooLarge_admitSpawn {context : CliArgvLimitContext} {env : ProcessEnv}
    (hplatform : context.platform.getD .win32 = .win32) (hsurface : context.windowsCommandWrapper = none)
    (hmax : context.maxUtf8Bytes = none) (hadmitted : assertCliArgvUtf8Size .win32 command args context = .ok ())
    (hpath : ∀ path ∈ resolved, PathFits normalize extension path) (henv : EnvironmentFits args.length env)
    (hstarted : EnvironmentFits (resolveCommandForSpawn normalize .win32 resolved extension command args).args.length env) :
    NotTooLarge (admitSpawn normalize .win32 resolved extension command args env) := by
  obtain ⟨-, hmeasured⟩ := measured_of_admitted hadmitted
  have hbudget : measureWindowsCmdWrapperPreflightUtf8UpperBound command args ≤ MAX_CLI_ARGV_UTF8_BYTES_WINDOWS_CMD := by
    simpa [measureForSurface, maxCliArgvUtf8Bytes, hplatform, hsurface, hmax] using hmeasured
  obtain ⟨hcount, hargs, hsize⟩ := resolved_fits hbudget hpath
  set spawned := resolveCommandForSpawn normalize .win32 resolved extension command args
  have hown : args.length ≤ 1300 := by
    have hcounts := preflight_counts args
    rw [measureWindowsCmdWrapperPreflightUtf8UpperBound, MAX_CLI_ARGV_UTF8_BYTES_WINDOWS_CMD, wrapperAndResolvedPathHeadroom]
      at hbudget
    omega
  -- the argv of the request, as both checks of it measure it
  have hrequest (platform : Option Platform) (hp : platform.getD .win32 = .win32) :
      NotTooLarge (assertCliArgvUtf8Size .win32 command args ⟨command, platform, none, none, none⟩) := by
    refine notTooLarge_argv (hown.trans (by decide)) ?_
    simpa [measureForSurface, maxCliArgvUtf8Bytes, hp] using hbudget
  have hspawned : NotTooLarge (assertCliArgvUtf8Size .win32 spawned.command spawned.args
      ⟨command, some .win32, some spawned.windowsVerbatimArguments, none, none⟩) := by
    refine notTooLarge_argv (hcount.trans (by decide)) ?_
    cases hwrapper : spawned.windowsVerbatimArguments
    · rw [hwrapper, if_neg Bool.false_ne_true] at hsize
      simpa [measureForSurface, maxCliArgvUtf8Bytes] using hsize
    · rw [hwrapper, if_pos rfl] at hsize
      simpa [measureForSurface, maxCliArgvUtf8Bytes] using hsize
  rw [admitSpawn]
  refine (hrequest _ rfl).bind fun _ => (notTooLarge_processInput (hrequest _ rfl) rfl henv).bind fun _ =>
    hspawned.bind fun _ => (notTooLarge_processInput hspawned rfl hstarted).bind fun _ =>
      (notTooLarge_each (fun argument hargument index => ?_) 0).bind fun _ => .ok _
  exact notTooLarge_argument (hargs argument hargument)

end

/-- **The preflight for Windows is conservative.**  It bounds the invocation of every shim whose path fits the headroom, the bound
for native programs bounds their command lines, and an argv that has been admitted before its command is looked up is not found too
large in front of the spawn: neither as it is nor as what it has become. -/
theorem windows_preflight_is_conservative (normalize extension : Text → Text) (command : Text) (args : List Text) :
    (∀ resolved, FitsHeadroom normalize resolved →
      measureCliArgvUtf8Bytes (text "cmd.exe") (shimArgs normalize resolved args) ≤
        measureWindowsCmdWrapperPreflightUtf8UpperBound command args) ∧
    (∀ quoteToken, QuotesTokens quoteToken →
      byteLength (nativeCommandLine quoteToken command args) + 1 ≤ measureWindowsCliArgvUtf8UpperBound command args) ∧
    ∀ (context : CliArgvLimitContext) (resolved : Option Text) (env : ProcessEnv),
      context.platform.getD .win32 = .win32 → context.windowsCommandWrapper = none → context.maxUtf8Bytes = none →
      assertCliArgvUtf8Size .win32 command args context = .ok () → (∀ path ∈ resolved, PathFits normalize extension path) →
      EnvironmentFits args.length env →
      EnvironmentFits (resolveCommandForSpawn normalize .win32 resolved extension command args).args.length env →
      ∀ e, admitSpawn normalize .win32 resolved extension command args env ≠ .error (.tooLarge e) :=
  ⟨fun _ hfits => preflight_bounds_wrapper hfits command args, fun _ hquotes => measure_bounds_native hquotes command args,
    fun _ _ _ hplatform hsurface hmax hadmitted hpath henv hstarted =>
      notTooLarge_admitSpawn hplatform hsurface hmax hadmitted hpath henv hstarted⟩

/-- The extension of the paths below. -/
def cmdExtension (_ : Text) : Text := text ".cmd"

/-- The context of a request that is being prepared. -/
def preparation : CliArgvLimitContext := ⟨text "codex", none, none, none, none⟩

theorem windows_preflight_of_codex :
    measureCliArgvUtf8Bytes (text "cmd.exe") (shimArgs backslashes (text "C:/npm/codex.cmd") [text "say \"hi\""]) ≤
        measureWindowsCmdWrapperPreflightUtf8UpperBound (text "codex") [text "say \"hi\""] ∧
      byteLength (nativeCommandLine quoteWindowsArgForCommandLineToArgv (text "codex") [text "say \"hi\""]) + 1 ≤
        measureWindowsCliArgvUtf8UpperBound (text "codex") [text "say \"hi\""] ∧
      ∀ e, admitSpawn backslashes .win32 (some (text "C:/npm/codex.cmd")) cmdExtension (text "codex") [text "say \"hi\""]
        [(text "A", some (text "b"))] ≠ .error (.tooLarge e) := by
  obtain ⟨hwrapper, hnative, hspawn⟩ :=
    windows_preflight_is_conservative backslashes cmdExtension (text "codex") [text "say \"hi\""]
  refine ⟨hwrapper _ (by decide), hnative _ fun _ => .inr rfl, hspawn preparation _ _ rfl rfl rfl rfl ?_ ⟨by decide, by decide, by decide⟩
    ⟨by decide, by decide, by decide⟩⟩
  intro path hpath
  obtain rfl := Option.some.inj hpath
  rw [PathFits, if_pos (.inl rfl)]
  decide

/-- An environment of its own size is refused in front of the spawn. -/
theorem tooLarge_environment {value : Text} (hascii : ∀ u ∈ value, u < 0x80 ∧ u ≠ 0) (hlong : 30000 ≤ value.length)
    (hshort : value.length ≤ 100000) :
    ∃ e, admitSpawn backslashes .win32 none cmdExtension (text "codex") [] [(text "A", some value)] = .error (.tooLarge e) := by
  have hbytes : byteLength value = value.length := byteLength_of_ascii fun u hu => (hascii u hu).1
  have hvalue (context : CliInputLimitContext) : assertCliArgRepresentable value context = .ok () := by
    refine if_neg ?_
    rw [List.contains_iff_mem]
    exact fun hzero => (hascii 0 hzero).2 rfl
  have helement : assertEnvironmentElement (text "codex") (text "A", value) = .ok () := by
    have hsize : byteLength (text "A" ++ text "=" ++ value) ≤ MAX_CLI_ARG_UTF8_BYTES := by
      have happend := byteLength_append_le (text "A" ++ text "=") value
      have hname : byteLength (text "A" ++ text "=") = 2 := by decide
      rw [MAX_CLI_ARG_UTF8_BYTES]
      omega
    have hzero : assertCliArgRepresentable (text "A" ++ text "=" ++ value)
        ⟨text "codex", some (text "environment element"), none⟩ = .ok () := by
      refine if_neg ?_
      rw [List.contains_iff_mem, List.mem_append]
      rintro (h | h)
      · exact absurd h (by decide)
      · exact (hascii 0 h).2 rfl
    rw [assertEnvironmentElement, show assertCliArgRepresentable (text "A", value).1
      ⟨text "codex", some (text "environment name"), none⟩ = .ok () from rfl, hvalue, assertCliArgUtf8Size, hzero]
    exact if_pos hsize
  have henv : ¬measureCliEnvironmentUtf8Bytes [(text "A", some value)] ≤ 30000 := by
    show ¬byteLength (text "A") + 1 + byteLength value + 1 + 0 ≤ 30000
    omega
  have hinput : ∃ e, assertCliProcessInputUtf8Size .win32 (text "codex") [] [(text "A", some value)]
      ⟨text "codex", none, none, none, none⟩ [] false = .error (.tooLarge e) := by
    rw [assertCliProcessInputUtf8Size, show assertCliArgvUtf8Size .win32 (text "codex") []
      ⟨text "codex", none, none, none, none⟩ = .ok () from rfl]
    simp only [mergeEnv_nil]
    rw [show ProcessEnv.entries [(text "A", some value)] = [(text "A", value)] from rfl, assertEach, helement]
    exact ⟨_, if_neg henv⟩
  obtain ⟨e, he⟩ := hinput
  refine ⟨e, ?_⟩
  rw [admitSpawn, show assertCliArgvUtf8Size .win32 (text "codex") [] ⟨text "codex", some .win32, none, none, none⟩ = .ok () from rfl]
  show (assertCliProcessInputUtf8Size _ _ _ _ _ _ _ >>= _) = _
  rw [he]
  rfl

/-- The preflight says nothing about the environment. -/
theorem windows_preflight_sees_no_environment :
    assertCliArgvUtf8Size .win32 (text "codex") [] preparation = .ok () ∧
    ∃ e, admitSpawn backslashes .win32 none cmdExtension (text "codex") [] [(text "A", some (List.replicate 30000 97))] =
      .error (.tooLarge e) := by
  refine ⟨rfl, tooLarge_environment (fun u hu => ?_) ?_ ?_⟩
  · rw [List.eq_of_mem_replicate hu]
    decide
  · rw [List.length_replicate]
  · rw [List.length_replicate]
    omega

end LlmGateway.Executor
