import LlmGateway.Lib.JsString
import LlmGateway.Lib.Regex
import Mathlib.Data.List.Infix

/-!
# The help parser

* `splitFlagLine` — the leading flag tokens of a line, what follows them, and the description;
* `extractEnumValues`, `hasValuePlaceholder`, `inferValueType`, `isDangerous` — what is read off such a line;
* `parseHelpText` — the loop over the lines.
-/

namespace LlmGateway.Help

open LlmGateway.Lib.Utf16 LlmGateway.Lib.Regex

inductive ParsedFlagArity where
  | none
  | one
  | many
  deriving DecidableEq

inductive ParsedFlagValueType where
  | boolean
  | string
  | enum
  | number
  | unknown
  deriving DecidableEq

inductive ParsedFlagSafety where
  | safe
  | dangerous
  | unknown
  deriving DecidableEq

inductive ParsedArgvPlacement where
  | flag
  | flagThenValue
  deriving DecidableEq

structure ParsedFlag where
  name : Text
  aliases : List Text
  arity : ParsedFlagArity
  valueType : ParsedFlagValueType
  enumValues : List Text
  repeatable : Bool
  safety : ParsedFlagSafety
  argvPlacement : ParsedArgvPlacement
  description : Text
  deriving DecidableEq

structure ParsedSubcommand where
  name : Text
  description : Text
  helpChecksum : Text
  deriving DecidableEq

/-- A record of the kind `flag`. -/
structure DiscoveredUnmapped where
  raw : Text
  checksum : Text
  reason : Text
  deriving DecidableEq

structure ParsedHelp where
  flags : List ParsedFlag
  subcommands : List ParsedSubcommand
  discoveredUnmapped : List DiscoveredUnmapped
  checksum : Text
  deriving DecidableEq

/-! ## Patterns -/

def isLetter (u : UInt16) : Bool := (65 ≤ u && u ≤ 90) || (97 ≤ u && u ≤ 122)

def isDigit (u : UInt16) : Bool := 48 ≤ u && u ≤ 57

/-- `<` or `[` -/
def opens (u : UInt16) : Bool := u == 0x3C || u == 0x5B

/-- `>` or `]` -/
def closes (u : UInt16) : Bool := u == 0x3E || u == 0x5D

/-- FLAG_TOKEN: one or two dashes, a letter, and then letters, digits and dashes. -/
def isFlagToken : Text → Bool
  | 45 :: 45 :: u :: s => isLetter u && s.all fun v => isLetter v || isDigit v || v == 45
  | 45 :: u :: s => isLetter u && s.all fun v => isLetter v || isDigit v || v == 45
  | _ => false

/-- The letters of a word, in either case. -/
def spelled (w : String) : List (UInt16 → Bool) := w.toList.map letter

/-- `/w/i.test(s)` -/
def mentions (w : String) (s : Text) : Bool := (search (fun _ => word (spelled w)) true s).isSome

/-- `/^w$/i.test(s)` -/
def isWordOf (w : String) (s : Text) : Bool := (first (word (spelled w)) s).any fun r => r.2.isEmpty

/-- The text before the first run of two or more white spaces, and the rest. -/
def splitGap : Text → Option (Text × Text)
  | u :: v :: s =>
    if isSpace u && isSpace v then some ([], u :: v :: s) else (splitGap (v :: s)).map fun r => (u :: r.1, r.2)
  | _ => none

/-! ## Lines -/

structure FlagDeclaration where
  tokens : List Text
  afterFlags : Text
  description : Text
  deriving DecidableEq

def isDashed (s : Text) : Bool := s.head? == some 45

def splitFlagLine (line : Text) : Option FlagDeclaration :=
  let trimmed := trim line
  if isDashed trimmed then
    let declPart := ((splitGap trimmed).map Prod.fst).getD trimmed
    let description := ((splitGap trimmed).map fun gap => trim gap.2).getD []
    let pieces := (declPart.splitOnP fun u => u == 0x2C || isSpace u).filter fun piece => !piece.isEmpty
    some ⟨pieces.takeWhile isDashed, List.intercalate [0x20] (pieces.dropWhile isDashed), description⟩
  else none

/-- Each leading token is the name of a flag. -/
def FlagDeclaration.parses (decl : FlagDeclaration) : Bool := !decl.tokens.isEmpty && decl.tokens.all isFlagToken

/-- The first long flag, or else the first token. -/
def FlagDeclaration.name (decl : FlagDeclaration) : Text :=
  (decl.tokens.find? fun token => token.take 2 == [45, 45]).getD (decl.tokens.head?.getD [])

def FlagDeclaration.aliases (decl : FlagDeclaration) : List Text := decl.tokens.filter fun token => token != decl.name

/-! ## What a declaration says -/

def dangerousKeywords : List String :=
  ["dangerous", "bypass", "yolo", "skip-permission", "skip permissions", "skip-git", "no-sandbox", "without sandbox",
    "auto-approve", "always-approve", "disable-web-search", "force"]

/-- A danger keyword occurs in the text. -/
def hasDangerWord (L : LowerCase) (s : Text) : Bool :=
  dangerousKeywords.any fun keyword => decide (text keyword <:+: L.toLowerCase s)

def isDangerous (L : LowerCase) (name description : Text) : Bool := hasDangerWord L (name ++ 0x20 :: description)

def possibleValues (before : Option UInt16) : Pattern UInt16 Text :=
  seq (here (!before.any isWord) ()) fun _ => seq (word (spelled "possible values:")) fun _ =>
    seq (star isSpace) fun _ => plus fun u => u != 0x5D && u != 0xA

def isValueUnit (u : UInt16) : Bool := isLetter u || isDigit u || u == 0x2E || u == 0x5F || u == 0x2D

/-- `\s*\|\s*[a-zA-Z0-9._-]+` -/
def alternative : Pattern UInt16 Text :=
  seq (star isSpace) fun before => seq (unit (· == 0x7C)) fun bar => seq (star isSpace) fun after =>
    seq (plus isValueUnit) fun value => here true (before ++ bar :: after ++ value)

def pipedValues : Pattern UInt16 Text :=
  seq (unit opens) fun _ => seq (plus isValueUnit) fun value => seq alternative fun next =>
    seq (fun s => many alternative s.length s) fun more => seq (unit closes) fun _ => here true (value ++ next ++ more)

/-- `list.split(sep)`, trimmed, without what is empty. -/
def splitValues (sep : UInt16) (list : Text) : List Text :=
  ((list.splitOnP (· == sep)).map trim).filter fun value => !value.isEmpty

def extractEnumValues (fragment : Text) : List Text :=
  match searchAfter possibleValues none fragment with
  | some list => splitValues 0x2C list
  | none =>
    match search (fun _ => pipedValues) true fragment with
    | some list => splitValues 0x7C list
    | none => []

def bracketed : Pattern UInt16 Text :=
  seq (unit opens) fun _ => seq (star fun u => !closes u) fun inner => seq (unit closes) fun _ => here true inner

def upperWord (before : Option UInt16) : Pattern UInt16 Unit :=
  seq (here (!before.any isWord) ()) fun _ => seq (unit fun u => 65 ≤ u && u ≤ 90) fun _ =>
    seq (plus fun u => (65 ≤ u && u ≤ 90) || isDigit u || u == 0x5F) fun _ => notAhead isWord

def hasValuePlaceholder (afterFlags : Text) : Bool :=
  let head := ((splitGap afterFlags).map Prod.fst).getD afterFlags
  (search (fun _ => bracketed) true afterFlags).isSome || (searchAfter upperWord none head).isSome || head.contains 0x3D

def numberPlaceholders : List String :=
  ["n", "num", "count", "number", "seconds", "secs", "ms", "port", "size", "turns", "budget", "price", "tokens", "maxturns",
    "max-turns", "max_turns"]

def pathPlaceholders : List String := ["file", "files", "dir", "path", "directory", "glob"]

/-- `[<[]([^\]>]+)[\]>]` -/
def placeholderInner : Pattern UInt16 Text :=
  seq (unit opens) fun _ => seq (plus fun u => !closes u) fun inner => seq (unit closes) fun _ => here true inner

def inferValueType (placeholder : Text) (enumValues : List Text) : ParsedFlagValueType :=
  if !enumValues.isEmpty then .enum
  else
    let inner := ((search (fun _ => placeholderInner) true placeholder).map trim).getD (trim placeholder)
    let dots := if decide ([0x2E, 0x2E, 0x2E] <:+ inner) then inner.take (inner.length - 3) else inner
    let token := trim (dots.filter fun u => !(opens u || closes u))
    if token.isEmpty then .string
    else if token.contains 0x3D then .string
    else if numberPlaceholders.any fun w => isWordOf w token then .number
    else if pathPlaceholders.any fun w => isWordOf w token then .string
    else if token.all fun u => isLetter u || isDigit u || u == 0x5F || u == 0x2E || u == 0x2F || u == 0x7C || u == 0x2D then .string
    else .unknown

/-- The lines that follow a declaration, as far as its values are looked for in them: up to a blank line, a line with a flag, or
the line that lists the possible values. -/
def lookAhead : List Text → List Text
  | [] => []
  | cont :: lines =>
    if (trim cont).isEmpty then []
    else if (splitFlagLine cont).any fun decl => !decl.tokens.isEmpty then []
    else if mentions "possible values:" cont then [cont]
    else cont :: lookAhead lines

/-- The lines, each trimmed and with a blank before it. -/
def joined (lines : List Text) : Text := lines.flatMap fun line => 0x20 :: trim line

def enumSource (decl : FlagDeclaration) (after : List Text) : Text :=
  decl.afterFlags ++ 0x20 :: (decl.description ++ joined (lookAhead after))

/-- The flag that a line declares, with the lines `after` it. -/
def flagOf (L : LowerCase) (decl : FlagDeclaration) (after : List Text) : ParsedFlag :=
  let enumValues := extractEnumValues (enumSource decl after)
  let takesValue := hasValuePlaceholder decl.afterFlags || !enumValues.isEmpty
  let repeatable := mentions "..." decl.afterFlags || mentions "repeat" decl.description || mentions "repeatable" (enumSource decl after)
  let arity := if !takesValue then .none else if repeatable then .many else .one
  { name := decl.name
    aliases := decl.aliases
    arity := arity
    valueType := if arity = .none then .boolean else inferValueType decl.afterFlags enumValues
    enumValues := enumValues
    repeatable := repeatable
    safety := if isDangerous L decl.name decl.description then .dangerous else .safe
    argvPlacement := if arity = .none then .flag else .flagThenValue
    description := decl.description }

/-! ## The loop -/

structure ParseState where
  flags : List ParsedFlag
  subcommands : List ParsedSubcommand
  discoveredUnmapped : List DiscoveredUnmapped
  seenFlagNames : List Text
  seenSubcommands : List Text
  inSubcommandSection : Bool
  deriving DecidableEq

def isSubcommandHeader (L : LowerCase) (line : Text) : Bool :=
  ["commands:", "available subcommands:", "subcommands:"].any fun header => L.toLowerCase (trim line) == text header

def isFlagHeader (L : LowerCase) (line : Text) : Bool :=
  (["options:", "arguments:", "flags:"].any fun header => L.toLowerCase (trim line) == text header) ||
    decide (text "usage" <+: L.toLowerCase (trim line))

def isNameUnit (u : UInt16) : Bool := isLetter u || isDigit u || u == 0x5F || u == 0x2D

/-- `\s+(?:<[^<>]*>|\[[^[\]]*\]|\.\.\.)` -/
def usageArgument : Pattern UInt16 Text :=
  seq (plus isSpace) fun blanks =>
    alt (alt
      (seq (unit (· == 0x3C)) fun a => seq (star fun u => u != 0x3C && u != 0x3E) fun s => seq (unit (· == 0x3E)) fun b =>
        here true (blanks ++ a :: s ++ [b]))
      (seq (unit (· == 0x5B)) fun a => seq (star fun u => u != 0x5B && u != 0x5D) fun s => seq (unit (· == 0x5D)) fun b =>
        here true (blanks ++ a :: s ++ [b])))
      (seq (word [(· == 0x2E), (· == 0x2E), (· == 0x2E)]) fun _ => here true (blanks ++ [0x2E, 0x2E, 0x2E]))

/-- `(?:\s{2,}(\S.*)?)?$` -/
def subcommandTail : Pattern UInt16 (Option Text) :=
  alt
    (seq (unit isSpace) fun _ => seq (plus isSpace) fun _ =>
      alt
        (seq (unit fun u => !isSpace u) fun u => seq (star fun v => !isLineTerminator v) fun s => fun rest =>
          if rest.isEmpty then [(some (u :: s), [])] else [])
        (fun rest => if rest.isEmpty then [(none, [])] else []))
    (fun rest => if rest.isEmpty then [(none, [])] else [])

/-- SUBCOMMAND_LINE: the name, and the description if there is one. -/
def subcommandLine : Pattern UInt16 (Text × Option Text) :=
  seq (unit isLetter) fun u => seq (star isNameUnit) fun s => seq (fun s => many usageArgument s.length s) fun _ =>
    seq subcommandTail fun description => here true (u :: s, description)

def unmappedReason : Text :=
  text "help line begins with '-' but its leading token is not a parseable flag (non-ASCII or malformed flag name)"

variable (L : LowerCase) (checksumText : Text → Text)

/-- A line of a section of subcommands that begins with no dash, if it declares one. -/
def parseSubcommand (st : ParseState) (line : Text) : ParseState :=
  match first subcommandLine (trim line) with
  | none => st
  | some ((name, description), _) =>
    if name = text "help" ∨ name ∈ st.seenSubcommands then st
    else
      let description := trim (description.getD [])
      { st with
        seenSubcommands := st.seenSubcommands ++ [name]
        subcommands := st.subcommands ++ [⟨name, description, checksumText (name ++ 9 :: description)⟩] }

/-- A line that begins with a dash. -/
def parseFlag (st : ParseState) (line : Text) (decl : FlagDeclaration) (after : List Text) : ParseState :=
  if !decl.parses then
    { st with discoveredUnmapped := st.discoveredUnmapped ++ [⟨trim line, checksumText (trim line), unmappedReason⟩] }
  else if decl.name ∈ st.seenFlagNames then st
  else { st with seenFlagNames := st.seenFlagNames ++ [decl.name], flags := st.flags ++ [flagOf L decl after] }

def parseLine (st : ParseState) (line : Text) (after : List Text) : ParseState :=
  if (trim line).isEmpty then st
  else if isSubcommandHeader L line then { st with inSubcommandSection := true }
  else if isFlagHeader L line then { st with inSubcommandSection := false }
  else
    match splitFlagLine line with
    | some decl => parseFlag L checksumText st line decl after
    | none => if st.inSubcommandSection then parseSubcommand checksumText st line else st

def parseLines (st : ParseState) : List Text → ParseState
  | [] => st
  | line :: after => parseLines (parseLine L checksumText st line after) after

/-- `helpText.replace(/\r\n/g, "\n")` -/
def normalize : Text → Text
  | [] => []
  | 13 :: 10 :: s => 10 :: normalize s
  | u :: s => u :: normalize s

def helpLines (helpText : Text) : List Text := (normalize helpText).splitOnP (· == 10)

def parseHelpText (helpText : Text) : ParsedHelp :=
  let st := parseLines L checksumText ⟨[], [], [], [], [], false⟩ (helpLines helpText)
  ⟨st.flags, st.subcommands, st.discoveredUnmapped, checksumText (trim (normalize helpText))⟩

end LlmGateway.Help
