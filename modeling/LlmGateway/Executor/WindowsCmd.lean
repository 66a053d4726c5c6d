import LlmGateway.Lib.CommandLine

/-!
# The command line of a `.cmd` shim

`buildWindowsCmdCommand` (executor.ts).  `normalize` is `path.win32.normalize`; nothing is assumed about it.

* `scan_escapeWindowsCmdMetaChars` — what cmd.exe reads of an escaped text: each metacharacter literal, nothing else changed;
* `readArgs_quoted` — the quoted arguments are read back;
* `windows_command_line` — both together: the text determines the command and its arguments, and cmd.exe reads them as they are
  where no line break is in the way; line breaks apart, the characters of the set are all that it acts on.
-/

namespace LlmGateway.Executor

open Lib Lib.Utf16 Lib.CommandLine

/-! ## Quoting -/

def WINDOWS_CMD_META_CHARS : Text := text "()][%!^\"`<>&|;, *?"

def escapeWindowsCmdMetaChars : Text → Text
  | [] => []
  | ch :: value =>
    if WINDOWS_CMD_META_CHARS.contains ch then 94 :: ch :: escapeWindowsCmdMetaChars value
    else ch :: escapeWindowsCmdMetaChars value

/-- The loop over the value; `backslashes` have been read and not yet written. -/
def encodeWindowsArg (backslashes : ℕ) : Text → Text
  | [] => List.replicate (backslashes * 2) 92
  | ch :: value =>
    if ch = 92 then encodeWindowsArg (backslashes + 1) value
    else if ch = 34 then List.replicate (backslashes * 2 + 1) 92 ++ 34 :: encodeWindowsArg 0 value
    else List.replicate backslashes 92 ++ ch :: encodeWindowsArg 0 value

def quoteWindowsArgForCommandLineToArgv (value : Text) : Text := 34 :: (encodeWindowsArg 0 value ++ [34])

def escapeWindowsCmdArgument (value : Text) : Text := escapeWindowsCmdMetaChars (quoteWindowsArgForCommandLineToArgv value)

section
variable (normalize : Text → Text)

def escapeWindowsCmdCommand (value : Text) : Text := escapeWindowsCmdMetaChars (normalize value)

def buildWindowsCmdCommand (command : Text) (args : List Text) : Text :=
  escapeWindowsCmdCommand normalize command ++ args.flatMap fun value => 32 :: escapeWindowsCmdArgument value

end

/-! ## What cmd.exe reads -/

def isLineBreak (u : UInt16) : Bool := u == 13 || u == 10

/-- What cmd.exe reads of a character that has been escaped where it is in the set. -/
def escapedMark (u : UInt16) : Mark := ⟨u, WINDOWS_CMD_META_CHARS.contains u⟩

theorem scan_escapeWindowsCmdMetaChars (value rest : Text) :
    scan (escapeWindowsCmdMetaChars value ++ rest) = value.map escapedMark ++ scan rest := by
  induction value with
  | nil => rfl
  | cons ch value ih =>
    rw [escapeWindowsCmdMetaChars, List.map_cons, List.cons_append]
    by_cases hch : WINDOWS_CMD_META_CHARS.contains ch = true
    · rw [if_pos hch, List.cons_append, List.cons_append, scan_caret, ih, escapedMark, hch]
    · have hcaret : ch ≠ 94 := by
        rintro rfl
        exact hch (by decide)
      rw [if_neg hch, List.cons_append, scan_plain hcaret, ih, escapedMark, eq_false_of_ne_true hch]

theorem operators_escaped : ∀ u ∈ operators, isLineBreak u = false → WINDOWS_CMD_META_CHARS.contains u = true := by decide

theorem separators_escaped : ∀ u ∈ separators, WINDOWS_CMD_META_CHARS.contains u = true := by decide

/-- Line breaks apart, an escaped character is nothing that cmd.exe acts on. -/
theorem acts_escapedMark {u : UInt16} (hu : isLineBreak u = false) : (escapedMark u).acts = false := by
  by_cases hop : u ∈ operators
  · rw [Mark.acts, escapedMark, operators_escaped u hop hu]
    rfl
  · rw [Mark.acts, escapedMark, Bool.and_eq_false_iff]
    exact .inr (by simpa using hop)

theorem separates_escapedMark (u : UInt16) : (escapedMark u).separates = false := by
  by_cases hsep : u ∈ separators
  · rw [Mark.separates, escapedMark, separators_escaped u hsep]
    rfl
  · rw [Mark.separates, escapedMark, Bool.and_eq_false_iff]
    exact .inr (by simpa using hsep)

/-- The blank between two arguments. -/
def gap : Mark := ⟨32, false⟩

variable {normalize : Text → Text} {command : Text} {args : List Text}

theorem scan_arguments (args : List Text) :
    scan (args.flatMap fun value => 32 :: escapeWindowsCmdArgument value) =
      args.flatMap fun value => gap :: (quoteWindowsArgForCommandLineToArgv value).map escapedMark := by
  induction args with
  | nil => rfl
  | cons value args ih =>
    rw [List.flatMap_cons, List.flatMap_cons, List.cons_append, scan_plain (by decide), escapeWindowsCmdArgument,
      scan_escapeWindowsCmdMetaChars, ih]
    rfl

theorem scan_buildWindowsCmdCommand :
    scan (buildWindowsCmdCommand normalize command args) = (normalize command).map escapedMark ++
      args.flatMap fun value => gap :: (quoteWindowsArgForCommandLineToArgv value).map escapedMark := by
  rw [buildWindowsCmdCommand, escapeWindowsCmdCommand, scan_escapeWindowsCmdMetaChars, scan_arguments]

/-! ## What the program reads -/

/-- The pending backslashes and the rest of the value are read, and the quote behind them closes. -/
theorem readFrom_encodeWindowsArg (value a rest : Text) (backslashes : ℕ) :
    readFrom (some a) true 0 (encodeWindowsArg backslashes value ++ 34 :: rest) =
      readFrom (some (a ++ List.replicate backslashes 92 ++ value)) false 0 rest := by
  induction value generalizing a backslashes with
  | nil => rw [encodeWindowsArg, readFrom_toggle, List.append_nil, Bool.not_true]
  | cons ch value ih =>
    rw [encodeWindowsArg]
    split_ifs with hslash hquote
    · rw [ih, hslash, List.replicate_succ', ← List.append_assoc, List.append_assoc, List.singleton_append]
    · rw [List.append_assoc, List.cons_append, readFrom_quote, ih, hquote, List.replicate_zero, List.append_nil,
        List.append_assoc, List.singleton_append]
    · rw [List.append_assoc, List.cons_append, readFrom_text a hslash hquote, ih, List.replicate_zero, List.append_nil,
        List.append_assoc, List.singleton_append]

theorem readFrom_quoted (value rest : Text) :
    readFrom none false 0 (quoteWindowsArgForCommandLineToArgv value ++ rest) = readFrom (some value) false 0 rest := by
  have hopen : readFrom none false 0 (34 :: (encodeWindowsArg 0 value ++ 34 :: rest)) =
      readFrom (some []) true 0 (encodeWindowsArg 0 value ++ 34 :: rest) := by
    rw [readFrom, if_neg (by decide), if_pos rfl, if_pos rfl]
    rfl
  rw [quoteWindowsArgForCommandLineToArgv, List.cons_append, List.append_assoc, List.singleton_append, hopen,
    readFrom_encodeWindowsArg]
  rfl

theorem readFrom_gap (arg : Option Text) (s : Text) :
    readFrom arg false 0 (32 :: s) = arg.toList ++ readFrom none false 0 s := by
  rw [readFrom, if_neg (by decide), if_neg (by decide), if_pos ⟨.inl rfl, rfl⟩]
  simp

/-- **The quoted arguments are read back.** -/
theorem readFrom_arguments (arg : Option Text) (args : List Text) :
    readFrom arg false 0 (args.flatMap fun value => 32 :: quoteWindowsArgForCommandLineToArgv value) = arg.toList ++ args := by
  induction args generalizing arg with
  | nil => simp [readFrom]
  | cons value args ih =>
    rw [List.flatMap_cons, List.cons_append, readFrom_gap, readFrom_quoted, ih]
    rfl

/-! ## Both together -/

theorem not_mem_encodeWindowsArg {u : UInt16} (hslash : u ≠ 92) (hquote : u ≠ 34) {value : Text} (hu : u ∉ value)
    (backslashes : ℕ) : u ∉ encodeWindowsArg backslashes value := by
  induction value generalizing backslashes with
  | nil =>
    intro h
    exact hslash (List.eq_of_mem_replicate h)
  | cons ch value ih =>
    rw [List.mem_cons, not_or] at hu
    rw [encodeWindowsArg]
    split_ifs
    · exact ih hu.2 _
    · rw [List.mem_append, List.mem_cons]
      rintro (h | rfl | h)
      · exact hslash (List.eq_of_mem_replicate h)
      · exact hquote rfl
      · exact ih hu.2 _ h
    · rw [List.mem_append, List.mem_cons]
      rintro (h | h | h)
      · exact hslash (List.eq_of_mem_replicate h)
      · exact hu.1 h
      · exact ih hu.2 _ h

/-- A text without line breaks. -/
def OneLine (value : Text) : Prop := ∀ u ∈ value, isLineBreak u = false

instance (value : Text) : Decidable (OneLine value) := inferInstanceAs (Decidable (∀ u ∈ value, isLineBreak u = false))

theorem OneLine.quoted {value : Text} (h : OneLine value) : OneLine (quoteWindowsArgForCommandLineToArgv value) := by
  intro u hu
  by_contra hbreak
  rw [Bool.not_eq_false] at hbreak
  have hne : u ≠ 92 ∧ u ≠ 34 := by
    constructor <;> rintro rfl <;> exact absurd hbreak (by decide)
  rw [quoteWindowsArgForCommandLineToArgv, List.mem_cons, List.mem_append, List.mem_singleton] at hu
  rcases hu with hu | hu | hu
  · exact hne.2 hu
  · refine not_mem_encodeWindowsArg hne.1 hne.2 (fun hv => ?_) 0 hu
    rw [h u hv] at hbreak
    cases hbreak
  · exact hne.2 hu

/-- Nothing of an argument makes cmd.exe act. -/
theorem acts_argument {value : Text} (h : OneLine value) :
    ∀ m ∈ scan (escapeWindowsCmdArgument value), m.acts = false ∧ m.separates = false := by
  intro m hm
  rw [escapeWindowsCmdArgument, ← List.append_nil (escapeWindowsCmdMetaChars _), scan_escapeWindowsCmdMetaChars] at hm
  obtain ⟨u, hu, rfl⟩ := List.mem_map.1 (by simpa [scan] using hm)
  exact ⟨acts_escapedMark (h.quoted u hu), separates_escapedMark u⟩

/-- What stands in front of the first separator, and what the rest gives. -/
theorem parts_buildWindowsCmdCommand (normalize : Text → Text) (command : Text) (args : List Text) :
    let marks := scan (buildWindowsCmdCommand normalize command args)
    (marks.takeWhile fun m => !m.separates).map Mark.char = normalize command ∧
      readArgs ((marks.dropWhile fun m => !m.separates).map Mark.char) = args := by
  have hword : ∀ m ∈ (normalize command).map escapedMark, (!m.separates) = true := by
    intro m hm
    obtain ⟨u, -, rfl⟩ := List.mem_map.1 hm
    rw [separates_escapedMark, Bool.not_false]
  have hchars (t : Text) : (t.map escapedMark).map Mark.char = t := by
    rw [List.map_map]
    exact List.map_id t
  simp only [scan_buildWindowsCmdCommand]
  rw [List.takeWhile_append_of_pos hword, List.dropWhile_append_of_pos hword]
  cases args with
  | nil => exact ⟨by simp [hchars], rfl⟩
  | cons value args =>
    rw [List.flatMap_cons, List.cons_append, List.takeWhile_cons_of_neg (by decide), List.dropWhile_cons_of_neg (by decide)]
    refine ⟨by rw [List.append_nil, hchars], ?_⟩
    have hrest := readFrom_arguments none (value :: args)
    rw [← List.cons_append,
      ← List.flatMap_cons (f := fun value => gap :: (quoteWindowsArgForCommandLineToArgv value).map escapedMark), List.map_flatMap]
    simp only [List.map_cons, hchars]
    exact hrest

theorem acts_buildWindowsCmdCommand (hcommand : OneLine (normalize command)) (hargs : ∀ value ∈ args, OneLine value) :
    (scan (buildWindowsCmdCommand normalize command args)).any Mark.acts = false := by
  rw [List.any_eq_false]
  intro m hm
  rw [scan_buildWindowsCmdCommand, List.mem_append, List.mem_flatMap] at hm
  rw [Bool.not_eq_true]
  rcases hm with hm | ⟨value, hvalue, hm⟩
  · obtain ⟨u, hu, rfl⟩ := List.mem_map.1 hm
    exact acts_escapedMark (hcommand u hu)
  · rcases List.mem_cons.1 hm with rfl | hm
    · decide
    · obtain ⟨u, hu, rfl⟩ := List.mem_map.1 hm
      exact acts_escapedMark ((hargs value hvalue).quoted u hu)

/-- **The command line of a shim.**  No two commands and lists of arguments have the same text.  Where there is no line break, what
cmd.exe and then the program read of it is the command, as `normalize` leaves it, and the arguments; and no character of an argument
ends the command, starts another one, redirects or splits it. -/
theorem windows_command_line (normalize : Text → Text) (command : Text) (args : List Text) :
    (∀ command' args', buildWindowsCmdCommand normalize command' args' = buildWindowsCmdCommand normalize command args →
      normalize command' = normalize command ∧ args' = args) ∧
    (OneLine (normalize command) → (∀ value ∈ args, OneLine value) →
      decode (buildWindowsCmdCommand normalize command args) = some (normalize command, args) ∧
      ∀ value ∈ args, ∀ m ∈ scan (escapeWindowsCmdArgument value), m.acts = false ∧ m.separates = false) := by
  have hparts := parts_buildWindowsCmdCommand normalize
  constructor
  · intro command' args' heq
    have hleft := hparts command' args'
    have hright := hparts command args
    rw [heq] at hleft
    exact ⟨hleft.1.symm.trans hright.1, hleft.2.symm.trans hright.2⟩
  · intro hcommand hargs
    refine ⟨?_, fun value hvalue => acts_argument (hargs value hvalue)⟩
    rw [decode, acts_buildWindowsCmdCommand hcommand hargs, if_neg Bool.false_ne_true, (hparts command args).1,
      (hparts command args).2]

/-- `path.win32.normalize` of a path without `.`, `..` and repeated separators. -/
def backslashes (path : Text) : Text := path.map fun u => if u = 47 then 92 else u

theorem windows_command_line_of_shim :
    decode (buildWindowsCmdCommand backslashes (text "C:/npm (x)/cli.cmd") [text "say \"%PATH%\" & more", text "\\", []]) =
      some (text "C:\\npm (x)\\cli.cmd", [text "say \"%PATH%\" & more", text "\\", []]) :=
  ((windows_command_line backslashes _ _).2 (by decide) (by decide)).1

/-- The command is read in its normalized spelling, and a line break is not made literal. -/
theorem windows_command_line_not_exact :
    decode (buildWindowsCmdCommand backslashes (text "C:/npm/cli.cmd") []) ≠ some (text "C:/npm/cli.cmd", []) ∧
    decode (buildWindowsCmdCommand backslashes (text "cli.cmd") [text "one\ntwo"]) ≠ some (text "cli.cmd", [text "one\ntwo"]) := by
  decide

end LlmGateway.Executor
