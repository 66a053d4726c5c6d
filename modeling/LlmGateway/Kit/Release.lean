import LlmGateway.Kit.Context

/-!
# Releases of the Kit

`createRelease`, `getReleaseById` and `getCurrentPersonalConfigRelease` (personal-config.ts), on the trees of files they read.

* `Entry` — a file, a directory with its entries in the order of `readdirSync`, a link, or another object;
* `validateBaselineTree`, `createRelease`, `getReleaseById` — a release that is made, and one that is read.

Paths are relative to the canonical root: `path.relative` of a path that has been joined below it is the names on the way.  Names
are texts as `readdirSync` gives them.  SHA-256, `String` of a value of JSON and the lower case of a text are parameters.
-/

namespace LlmGateway.Kit.Release

open Lib Lib.Utf16 Context

abbrev Bytes := List UInt8

abbrev Name := Text

inductive Entry where
  | file (bytes : Bytes)
  | dir (entries : List (Name × Entry))
  | link
  | special

/-- A name of a directory in UTF-8. -/
structure Legal (n : Name) : Prop where
  wellFormed : WellFormed n
  nonempty : n ≠ []
  notDot : n ≠ text "."
  notDotdot : n ≠ text ".."
  slash : 47 ∉ n
  nul : 0 ∉ n

mutual

/-- The names of a directory are legal and different. -/
def Sound : Entry → Prop
  | .dir es => (es.map Prod.fst).Nodup ∧ SoundEntries es
  | _ => True

def SoundEntries : List (Name × Entry) → Prop
  | [] => True
  | (n, e) :: es => Legal n ∧ Sound e ∧ SoundEntries es

end

structure ReleaseTree where
  root : Entry
  sound : Sound root

/-! ## The files of a tree -/

def MAX_CONFIG_SOURCE_BYTES : ℕ := 512 * 1024
def MAX_RELEASE_FILE_COUNT : ℕ := 256
def MAX_RELEASE_TREE_BYTES : ℕ := 4 * 1024 * 1024

/-- The path of the names on the way. -/
def relative (ns : List Name) : Text := [47].intercalate ns

/-- `!relativePath || !isUnder(canonicalRoot, candidate)` -/
def escapes (p : Text) : Bool := p.isEmpty || (text "..").isPrefixOf p || p.head? == some 47

/-- The files that have been found, and their size. -/
structure Listing where
  files : List Text
  totalBytes : ℕ

mutual

def visitEntry (candidate : List Name) (l : Listing) : Entry → Checked Listing
  | .link => invalidBaseline (text "Release tree may not contain symbolic links: " ++ relative candidate)
  | .dir es => visit candidate l es
  | .special => invalidBaseline (text "Release tree contains a non-regular file: " ++ relative candidate)
  | .file bytes =>
    if MAX_CONFIG_SOURCE_BYTES < bytes.length then
      invalidBaseline (text "Release source exceeds 524288 bytes: " ++ relative candidate)
    else if MAX_RELEASE_FILE_COUNT ≤ l.files.length then invalidBaseline (text "Release tree exceeds 256 regular files")
    else if MAX_RELEASE_TREE_BYTES < l.totalBytes + bytes.length then
      invalidBaseline (text "Release tree exceeds 4194304 bytes")
    else .ok ⟨l.files ++ [relative candidate], l.totalBytes + bytes.length⟩

def visit (directory : List Name) (l : Listing) : List (Name × Entry) → Checked Listing
  | [] => .ok l
  | (n, e) :: es =>
    if escapes (relative (directory ++ [n])) then invalidBaseline (text "Release tree escapes its staging root")
    else do
      let l ← visitEntry (directory ++ [n]) l e
      visit directory l es

end

/-- The order of `sort`. -/
def sortPaths (files : List Text) : List Text := files.mergeSort fun p q => decide (p ≤ q)

def listVerifiedReleaseFiles : Entry → Checked (List Text)
  | .dir es => do
    let l ← visit [] ⟨[], 0⟩ es
    return sortPaths l.files
  | _ => invalidBaseline (text "Release tree contains a non-directory path")

/-- The bytes of the file that the names lead to. -/
def contentAt : List Name → Entry → Option Bytes
  | [], .file bytes => some bytes
  | n :: ns, .dir es => (es.find? fun e => e.1 == n).bind fun e => contentAt ns e.2
  | _, _ => none

/-- The bytes of a file that has been listed. -/
def readFileSync (root : Entry) (p : Text) : Bytes := (contentAt (p.splitOn 47) root).getD []

/-- The files that the digest is taken of, the manifest apart. -/
def records (root : Entry) (files : List Text) : List (Text × Bytes) :=
  (files.filter fun p => p != text "manifest.json").map fun p => (p, readFileSync root p)

/-- What the hash is fed. -/
def feed (rs : List (Text × Bytes)) : Bytes := rs.flatMap fun r => Utf8.encode r.1 ++ 0 :: (r.2 ++ [0])

section
variable (sha256 : Bytes → Text)

def computeReleaseTreeDigest (root : Entry) : Checked Text := do
  let files ← listVerifiedReleaseFiles root
  return sha256 (feed (records root files))

/-! ## Releases -/

/-- `RELEASE_ID_PATTERN` -/
def isReleaseId (value : Text) : Bool :=
  (value.length == 40 || value.length == 64) && value.all fun u => (97 ≤ u && u ≤ 102) || (48 ≤ u && u ≤ 57)

/-- The checks of a manifest that has been parsed.  `asString` is `String`, of a value that may be missing; it may throw. -/
def acceptManifest (asString : Option JsValue → Option Text) (releaseId : Text) (root : Entry) (manifest : JsValue) :
    Option PersonalConfigRelease :=
  match manifest with
  | .object ms =>
    match JsValue.get "verified" ms, JsValue.get "releaseId" ms, JsValue.get "baselineCommit" ms, JsValue.get "treeDigest" ms with
    | some (.boolean true), some (.string i), some (.string c), some (.string treeDigest) =>
      if i = releaseId ∧ c = releaseId then
        match computeReleaseTreeDigest sha256 root with
        | .ok d =>
          if d = treeDigest then
            (asString (JsValue.get "createdAt" ms)).map fun createdAt => ⟨releaseId, releaseId, createdAt, treeDigest, rfl⟩
          else none
        | .error _ => none
      else none
    | _, _, _, _ => none
  | _ => none

/-- `root` is the directory of the release, where `releaseRootPath` gives one that exists. -/
def getReleaseById (asString : Option JsValue → Option Text) (releaseId : Text) (root : Option Entry) :
    Option PersonalConfigRelease :=
  if isReleaseId releaseId then
    root.bind fun e => (contentAt [text "manifest.json"] e).bind fun bytes =>
      (JsValue.parse (Utf8.decode bytes)).bind (acceptManifest sha256 asString releaseId e)
  else none

/-- `pointer` and `state` are the identifiers that the pointer and the state hold; a pointer that is valid wins. -/
def getCurrentPersonalConfigRelease (asString : Option JsValue → Option Text) (pointer state : Option Text)
    (rootAt : Text → Option Entry) : Option PersonalConfigRelease :=
  (pointer.filter isReleaseId <|> state.filter isReleaseId).bind fun releaseId =>
    getReleaseById sha256 asString releaseId (rootAt releaseId)

def isSensitiveSegment (segment : Text) : Bool :=
  segment == text ".env" || (text ".env.").isPrefixOf segment ||
    [text "credential", text "secret", text "token"].any fun w => segment.tails.any w.isPrefixOf

def isKeyMaterial (filename : Text) : Bool :=
  ([text "rsa", text "dsa", text "ecdsa", text "ed25519"].any fun k =>
      filename == text "id_" ++ k || filename == text "id_" ++ k ++ text ".pub") ||
    [text ".pem", text ".p12", text ".pfx", text ".key", text ".crt"].any fun w => w.isSuffixOf filename

def validateBaselineTree (L : LowerCase) (root : Entry) : Checked Unit := do
  let files ← listVerifiedReleaseFiles root
  for p in files do
    let segments := (L.toLowerCase p).splitOn 47
    if segments.any isSensitiveSegment || isKeyMaterial (segments.getLastD []) then
      invalidBaseline (text "Baseline contains prohibited entry: " ++ p)
    if p = text "manifest.json" then
      invalidBaseline (text "Baseline may not supply the reserved manifest.json release metadata file")

/-- `existing` is the directory of a release of the commit; `staging` is the tree of its archive. -/
def createRelease (asString : Option JsValue → Option Text) (L : LowerCase) (now commit : Text) (existing : Option Entry)
    (staging : Checked Entry) : Checked PersonalConfigRelease :=
  if isReleaseId commit then
    match getReleaseById sha256 asString commit existing with
    | some release => .ok release
    | none => do
      let root ← staging
      validateBaselineTree L root
      let treeDigest ← computeReleaseTreeDigest sha256 root
      return ⟨commit, commit, now, treeDigest, rfl⟩
  else invalidBaseline (text "Release commit identifier is invalid")

end

end LlmGateway.Kit.Release
