import LlmGateway.Lib.JsString
import LlmGateway.Lib.Replace

/-!
# The redaction of ACP messages

`acp/errors.ts`.

* `Body`, `Scan`, `redactJsonLikeBodies` — the scanner for what is between brackets;
* `passes`, `redactAcpMessage` — the replacements behind it, one after another.
-/

namespace LlmGateway.Acp.Redaction

open LlmGateway.Lib.Utf16 LlmGateway.Lib.Regex

/-! ## Bodies -/

/-- The letters of a word, in either case. -/
def caseless (w : String) : List (UInt16 → Bool) := w.toList.map letter

/-- `[A-Za-z0-9_-]` -/
def isNameUnit (u : UInt16) : Bool := isWord u || u == 0x2D

/-- `api[_-]?key` -/
def apiKey : Pattern UInt16 Text :=
  seq (taken (caseless "api")) fun api => seq (optional fun u => u == 0x5F || u == 0x2D) fun sep =>
    seq (taken (caseless "key")) fun key => here true (api ++ sep ++ key)

def payloadNames : List String :=
  ["jsonrpc", "method", "params", "prompt", "content", "body", "token", "secret", "credential", "auth", "cwd", "path"]

/-- The quoted name, the white space behind it, and a colon. -/
def payloadKey : Pattern UInt16 Unit :=
  seq (unit (· == 34)) fun _ =>
    seq ((payloadNames.map fun w => taken (caseless w)).foldr alt (alt apiKey (plus isNameUnit))) fun _ =>
      seq (unit (· == 34)) fun _ => seq (star isSpace) fun _ => seq (unit (· == 58)) fun _ => here true ()

def isLikelyJsonPayload (span : Text) : Bool := (search (fun _ => payloadKey) true span).isSome

def redactedJson : Text := text "<redacted-json>"

/-- The bracket that closes what `u` opens. -/
def closing (u : UInt16) : Option UInt16 := if u = 123 then some 125 else if u = 91 then some 93 else none

/-- The body that is open: `input.slice(bodyStart, index)`, and where the scanner is in it. -/
structure Body where
  text : Text
  stack : List UInt16
  inString : Bool
  escaped : Bool

/-- A unit of an open body; an empty stack closes it. -/
def Body.next (b : Body) (u : UInt16) : Body :=
  let b := { b with text := b.text ++ [u] }
  if b.escaped then { b with escaped := false }
  else if u = 92 then { b with escaped := b.inString }
  else if u = 34 then { b with inString := !b.inString }
  else if b.inString then b
  else
    match closing u with
    | some nestedClose => { b with stack := nestedClose :: b.stack }
    | none => if b.stack.head? = some u then { b with stack := b.stack.tail } else b

def Body.shown (b : Body) : Text := if isLikelyJsonPayload b.text then redactedJson else b.text

/-- `plain` is the input from the cursor up to the body, or up to the unit that is next. -/
structure Scan where
  out : Text
  plain : Text
  body : Option Body

def Scan.next (st : Scan) (u : UInt16) : Scan :=
  match st.body with
  | none =>
    match closing u with
    | none => { st with plain := st.plain ++ [u] }
    | some close => { st with body := some ⟨[u], [close], false, false⟩ }
  | some b =>
    let b := b.next u
    if b.stack.isEmpty then ⟨st.out ++ st.plain ++ b.shown, [], none⟩ else { st with body := some b }

/-- The end of the input: a body that is still open goes to the end. -/
def Scan.finish (st : Scan) : Text :=
  match st.body with
  | some b => st.out ++ st.plain ++ b.shown
  | none => st.out ++ st.plain

def redactJsonLikeBodies (input : Text) : Text := (input.foldl Scan.next ⟨[], [], none⟩).finish

/-! ## Replacements -/

def isAlpha (u : UInt16) : Bool := (65 ≤ u && u ≤ 90) || (97 ≤ u && u ≤ 122)

def isAlnum (u : UInt16) : Bool := isWord u && u != 0x5F

/-- What does not end a path: `[^\s"')\]}>]` -/
def inPath (u : UInt16) : Bool := !isSpace u && !(text "\"')]\x7d>").contains u

/-- `[A-Za-z0-9._~\/\-]` -/
def isPathUnit (u : UInt16) : Bool := isWord u || (text ".~/-").contains u

/-- `^`, or a unit without `p`, which is captured. -/
def edge (p : UInt16 → Bool) (before : Option UInt16) : Pattern UInt16 Text :=
  alt (here before.isNone []) (seq (unit fun u => !p u) fun u => here true [u])

/-- The start of a path in front of `rest`, replaced. -/
def pathAt (p : UInt16 → Bool) (rest : Pattern UInt16 Unit) (before : Option UInt16) : Pattern UInt16 Text :=
  seq (edge p before) fun kept => seq rest fun _ => here true (kept ++ text "<redacted-path>")

/-- `\b(bearer|token|api[_-]?key|secret)\b\s*[:=]?\s*\S+` -/
def bearer (before : Option UInt16) : Pattern UInt16 Text :=
  seq (boundary isWord before) fun _ =>
    seq (alt (taken (caseless "bearer")) (alt (taken (caseless "token")) (alt apiKey (taken (caseless "secret"))))) fun name =>
      seq (boundary isWord name.getLast?) fun _ => seq (star isSpace) fun _ =>
        seq (optional fun u => u == 0x3A || u == 0x3D) fun _ => seq (star isSpace) fun _ =>
          seq (plus fun u => !isSpace u) fun _ => here true (name ++ text " <redacted>")

/-- `\b(sk|xai|gsk|key)-[A-Za-z0-9_-]{8,}\b` -/
def separatedToken (before : Option UInt16) : Pattern UInt16 Text :=
  seq (boundary isWord before) fun _ =>
    seq ((["sk", "xai", "gsk", "key"].map fun w => taken (caseless w)).foldr alt fun _ => []) fun _ =>
      seq (unit (· == 0x2D)) fun _ => seq (atLeast 8 isNameUnit) fun value =>
        seq (boundary isWord value.getLast?) fun _ => here true (text "<redacted-token>")

/-- `\bAIza[A-Za-z0-9_-]{10,}` -/
def googleToken (before : Option UInt16) : Pattern UInt16 Text :=
  seq (boundary isWord before) fun _ => seq (word ((text "AIza").map fun c u => u == c)) fun _ =>
    seq (atLeast 10 isNameUnit) fun _ => here true (text "<redacted-token>")

/-- `\bgh[pousr]_[A-Za-z0-9]{20,}\b` -/
def githubToken (before : Option UInt16) : Pattern UInt16 Text :=
  seq (boundary isWord before) fun _ => seq (word ((text "gh").map fun c u => u == c)) fun _ =>
    seq (unit fun u => (text "pousr").contains u) fun _ => seq (unit (· == 0x5F)) fun _ =>
      seq (atLeast 20 isAlnum) fun value => seq (boundary isWord value.getLast?) fun _ => here true (text "<redacted-token>")

/-- `\bxox[baprs]-[A-Za-z0-9-]{10,}\b`, in either case -/
def slackToken (before : Option UInt16) : Pattern UInt16 Text :=
  seq (boundary isWord before) fun _ => seq (word (caseless "xox")) fun _ =>
    seq (unit fun u => "baprs".toList.any fun c => letter c u) fun _ => seq (unit (· == 0x2D)) fun _ =>
      seq (atLeast 10 fun u => isAlnum u || u == 0x2D) fun value =>
        seq (boundary isWord value.getLast?) fun _ => here true (text "<redacted-token>")

/-- `[A-Za-z]:\\[^\s"')\]}>]*` behind an edge -/
def drivePath : Option UInt16 → Pattern UInt16 Text :=
  pathAt (fun u => isPathUnit u || u == 92)
    (seq (unit isAlpha) fun _ => seq (unit (· == 0x3A)) fun _ => seq (unit (· == 92)) fun _ => seq (star inPath) fun _ =>
      here true ())

/-- `\\\\[^\s"')\]}>]+` behind an edge -/
def uncPath : Option UInt16 → Pattern UInt16 Text :=
  pathAt (fun u => isPathUnit u || u == 92)
    (seq (unit (· == 92)) fun _ => seq (unit (· == 92)) fun _ => seq (plus inPath) fun _ => here true ())

/-- `~\/[^\s"')\]}>]+` behind an edge -/
def homePath : Option UInt16 → Pattern UInt16 Text :=
  pathAt isPathUnit (seq (unit (· == 0x7E)) fun _ => seq (unit (· == 0x2F)) fun _ => seq (plus inPath) fun _ => here true ())

/-- `\/[A-Za-z0-9._\/\-]{2,}` behind an edge -/
def absolutePath : Option UInt16 → Pattern UInt16 Text :=
  pathAt isPathUnit
    (seq (unit (· == 0x2F)) fun _ => seq (atLeast 2 fun u => isWord u || (text "./-").contains u) fun _ => here true ())

/-- `[A-Z0-9._%+-]+@[A-Z0-9.-]+\.[A-Z]{2,}`, in either case -/
def email : Pattern UInt16 Text :=
  seq (plus fun u => isWord u || (text ".%+-").contains u) fun _ => seq (unit (· == 0x40)) fun _ =>
    seq (plus fun u => isAlnum u || (text ".-").contains u) fun _ => seq (unit (· == 0x2E)) fun _ =>
      seq (atLeast 2 isAlpha) fun _ => here true (text "<redacted-email>")

/-- The replacements in their order; a pattern captures what stands in the place of a match. -/
def passes : List (Option UInt16 → Pattern UInt16 Text) :=
  [bearer, separatedToken, googleToken, githubToken, slackToken, drivePath, uncPath, homePath, absolutePath, fun _ => email]

def redactAcpMessage (input : Text) : Text :=
  passes.foldl (fun out pass => replaceAll pass id out) (redactJsonLikeBodies input)

end LlmGateway.Acp.Redaction
