import LlmGateway.Lib.JsWidth
import LlmGateway.Replay.Context
import Mathlib.Data.Finset.Card

/-!
# Replay contexts that read back

* `instructionFiles` — the files among all paths that a provider looks at; `mem_discover`, `nodup_discover` — the sources that are
  discovered are these, each once;
* `replay_context_iff` — every context that is captured is read back exactly where so many files are discovered at most.
-/

namespace LlmGateway.Replay

open Lib Lib.PosixPath Lib.Utf16 Lib.JsNumber

/-! ## What is discovered -/

section
variable (host : Host) (sortByName : List Dirent → List Dirent)

/-- The files of a directory of rules. -/
def rulePaths (candidate : Path) : List Path :=
  if host.existsSync candidate && host.lstat candidate == some .dir then instructionRuleFiles host sortByName candidate else []

/-- The paths that a provider looks at in a directory. -/
def directoryPaths (provider : Provider) (directory : Path) : List Path :=
  match provider with
  | .claude =>
    [below directory ["CLAUDE.md"], below directory ["CLAUDE.local.md"], below directory [".claude", "CLAUDE.md"]] ++
      rulePaths host sortByName (below directory [".claude", "rules"])
  | .codex =>
    let override := below directory ["AGENTS.override.md"]
    [if host.isFile override then override else below directory ["AGENTS.md"]]
  | .gemini => [below directory ["GEMINI.md"]]
  | .mistral | .devin => [below directory ["AGENTS.md"], below directory [".agents", "AGENTS.md"]]
  | .cursor =>
    [below directory [".cursorrules"], below directory ["AGENTS.md"]] ++
      rulePaths host sortByName (below directory [".cursor", "rules"])
  | .grok | .other => []

/-- The paths that a provider looks at below a working directory. -/
def projectPaths (provider : Provider) (cwd : Path) : List Path :=
  let root := repositoryRoot host cwd
  let ancestors := root.elim (ancestorsFromRoot host cwd) fun root => (ancestorsFromRoot host cwd).filter (isWithin root)
  if provider = .grok then root.elim [] fun root => [below root ["GROK.md"]]
  else ancestors.flatMap (directoryPaths host sortByName provider)

/-- All paths that a provider looks at. -/
def instructionPaths (provider : Provider) (cwd : Option Path) (home : Path) : List Path :=
  globalByProvider home provider ++
    match cwd with
    | none | some [] => []
    | some cwd => projectPaths host sortByName provider cwd

/-- The files among them. -/
def instructionFiles (provider : Provider) (cwd : Option Path) (home : Path) : Finset Path :=
  (((instructionPaths host sortByName provider cwd home).map (resolve host.cwd)).filter host.isFile).toFinset

variable {host sortByName}

theorem addRules_eq (limit : Option ℕ) (sources : List InstructionSource) (candidate : Path) :
    addRules host sortByName limit sources candidate =
      (rulePaths host sortByName candidate).foldl (addFile host limit) sources := by
  unfold addRules rulePaths
  split_ifs <;> rfl

theorem addDirectory_eq (provider : Provider) (sources : List InstructionSource) (directory : Path) :
    addDirectory host sortByName provider sources directory =
      (directoryPaths host sortByName provider directory).foldl (addFile host (providerLimit provider)) sources := by
  cases provider with
  | claude | cursor =>
    unfold addDirectory directoryPaths
    simp only [addRules_eq, List.foldl_append]
    rfl
  | codex | gemini | mistral | devin | grok | other => rfl

theorem discover_eq (provider : Provider) (cwd : Option Path) (home : Path) :
    discoverInstructionSources host sortByName provider cwd home =
      (instructionPaths host sortByName provider cwd home).foldl (addFile host (providerLimit provider)) [] := by
  have hdirectories (directories : List Path) (sources : List InstructionSource) :
      directories.foldl (addDirectory host sortByName provider) sources =
        (directories.flatMap (directoryPaths host sortByName provider)).foldl (addFile host (providerLimit provider))
          sources := by
    rw [List.foldl_flatMap]
    exact congrArg (fun f => directories.foldl f sources) (funext₂ (addDirectory_eq provider))
  unfold discoverInstructionSources instructionPaths
  rw [List.foldl_append]
  split
  · rfl
  · rfl
  · unfold projectPaths
    by_cases hgrok : provider = .grok
    · subst hgrok
      simp only [if_pos]
      cases repositoryRoot host _ <;> rfl
    · simp only [if_neg hgrok, hdirectories]

/-- The sources are files, each once, and under the same limit. -/
structure Discovered (host : Host) (limit : Option ℕ) (sources : List InstructionSource) : Prop where
  nodup : (sources.map (·.path)).Nodup
  file : ∀ s ∈ sources, host.isFile s.path = true
  absolute : ∀ s ∈ sources, s.path.head? = some '/'
  limited : ∀ s ∈ sources, s.effectiveLimitBytes = limit

theorem addFile_cases (host : Host) (limit : Option ℕ) (sources : List InstructionSource) (candidate : Path) :
    (addFile host limit sources candidate = sources ∧
        (resolve host.cwd candidate ∈ sources.map (·.path) ∨ host.isFile (resolve host.cwd candidate) = false)) ∨
      (addFile host limit sources candidate = sources ++ [⟨resolve host.cwd candidate, limit⟩] ∧
        resolve host.cwd candidate ∉ sources.map (·.path) ∧ host.isFile (resolve host.cwd candidate) = true) := by
  have hany : (sources.any fun s => s.path == resolve host.cwd candidate) = true ↔
      resolve host.cwd candidate ∈ sources.map (·.path) := by
    simp only [List.any_eq_true, beq_iff_eq, List.mem_map]
  unfold addFile
  by_cases hseen : resolve host.cwd candidate ∈ sources.map (·.path)
  · exact .inl ⟨if_pos (by rw [hany.2 hseen, Bool.true_or]), .inl hseen⟩
  · rw [← hany, Bool.not_eq_true] at hseen
    cases hfile : host.isFile (resolve host.cwd candidate) with
    | false => exact .inl ⟨if_pos (by rw [hfile, Bool.not_false, Bool.or_true]), .inr rfl⟩
    | true =>
      refine .inr ⟨if_neg (by rw [hseen, hfile]; decide), ?_, rfl⟩
      rw [← hany, hseen]
      decide

theorem Discovered.add {limit : Option ℕ} {sources : List InstructionSource} (h : Discovered host limit sources)
    (candidate : Path) : Discovered host limit (addFile host limit sources candidate) := by
  obtain ⟨heq, -⟩ | ⟨heq, hnew, hfile⟩ := addFile_cases host limit sources candidate
  · rwa [heq]
  · rw [heq]
    have hmem (s : InstructionSource) : s ∈ sources ++ [⟨resolve host.cwd candidate, limit⟩] →
        s ∈ sources ∨ s = ⟨resolve host.cwd candidate, limit⟩ := by
      rw [List.mem_append, List.mem_singleton]
      exact id
    refine ⟨?_, fun s hs => ?_, fun s hs => ?_, fun s hs => ?_⟩
    · rw [List.map_append]
      refine List.nodup_append.2 ⟨h.nodup, List.nodup_singleton _, fun p hp q hq hpq => hnew ?_⟩
      rw [List.map_singleton, List.mem_singleton] at hq
      rw [hpq, hq] at hp
      exact hp
    · rcases hmem s hs with hs | rfl
      · exact h.file s hs
      · exact hfile
    · rcases hmem s hs with hs | rfl
      · exact h.absolute s hs
      · rfl
    · rcases hmem s hs with hs | rfl
      · exact h.limited s hs
      · rfl

theorem Discovered.foldl {limit : Option ℕ} (candidates : List Path) : ∀ {sources : List InstructionSource},
    Discovered host limit sources → Discovered host limit (candidates.foldl (addFile host limit) sources) := by
  induction candidates with
  | nil => exact fun h => h
  | cons candidate candidates ih => exact fun h => ih (h.add candidate)

/-- The sources that are added are the files among the candidates. -/
theorem mem_foldl_addFile {limit : Option ℕ} (candidates : List Path) : ∀ {sources : List InstructionSource} {p : Path},
    p ∈ (candidates.foldl (addFile host limit) sources).map (·.path) ↔
      p ∈ sources.map (·.path) ∨ p ∈ (candidates.map (resolve host.cwd)).filter host.isFile := by
  induction candidates with
  | nil => simp
  | cons candidate candidates ih =>
    intro sources p
    rw [List.foldl_cons, ih, List.map_cons, List.filter_cons]
    obtain ⟨heq, hold | hfile⟩ | ⟨heq, -, hfile⟩ := addFile_cases host limit sources candidate
    · rw [heq]
      split
      · rw [List.mem_cons]
        constructor
        · exact Or.imp_right .inr
        · rintro (h | rfl | h)
          · exact .inl h
          · exact .inl hold
          · exact .inr h
      · rfl
    · rw [heq, hfile, if_neg (by decide)]
    · rw [heq, hfile, if_pos rfl, List.map_append, List.mem_append, List.map_singleton, List.mem_singleton, List.mem_cons,
        or_assoc]

theorem discovered (provider : Provider) (cwd : Option Path) (home : Path) :
    Discovered host (providerLimit provider) (discoverInstructionSources host sortByName provider cwd home) := by
  rw [discover_eq]
  refine Discovered.foldl _ ⟨?_, ?_, ?_, ?_⟩ <;> simp

/-- Every file that the provider looks at is discovered, once. -/
theorem length_discover (provider : Provider) (cwd : Option Path) (home : Path) :
    (discoverInstructionSources host sortByName provider cwd home).length =
      (instructionFiles host sortByName provider cwd home).card := by
  have hsources : Discovered host (providerLimit provider) (discoverInstructionSources host sortByName provider cwd home) :=
    discovered provider cwd home
  have hnodup := hsources.nodup
  have hset : ((discoverInstructionSources host sortByName provider cwd home).map (·.path)).toFinset =
      instructionFiles host sortByName provider cwd home := by
    ext p
    rw [instructionFiles, List.mem_toFinset, List.mem_toFinset, discover_eq, mem_foldl_addFile, List.map_nil]
    simp
  rw [← hset, List.toFinset_card_of_nodup hnodup, List.length_map]

end

/-! ## Directories of files -/

theorem scanEntries_files {current : Path} {es : List Dirent} (hfiles : ∀ e ∈ es, e.kind = .file) : ∀ {s : RuleScan},
    s.files.length + es.length ≤ MAX_RULE_FILES → s.entriesSeen + es.length ≤ MAX_RULE_ENTRIES →
      scanEntries current s es = { s with
        files := s.files ++ es.map fun e => joinPaths [current, e.name]
        entriesSeen := s.entriesSeen + es.length } := by
  induction es with
  | nil =>
    intro s _ _
    rw [scanEntries, List.map_nil, List.append_nil, List.length_nil, Nat.add_zero]
  | cons e es ih =>
    intro s hcount hseen
    rw [List.length_cons] at hcount hseen
    have hkind := hfiles e List.mem_cons_self
    rw [scanEntries]
    dsimp only
    rw [if_neg (by omega), hkind]
    dsimp only
    have hrest := ih (fun f hf => hfiles f (List.mem_cons_of_mem _ hf))
      (s := { s with files := s.files ++ [joinPaths [current, e.name]], entriesSeen := s.entriesSeen + 1 })
      (by rw [List.length_append, List.length_singleton]; omega) (by dsimp only; omega)
    rw [hrest, List.map_cons, List.length_cons]
    dsimp only
    rw [List.append_assoc, List.singleton_append, Nat.add_assoc, Nat.add_comm 1]

/-- A directory of files only gives all of them, if they are not too many. -/
theorem instructionRuleFiles_of_files {host : Host} {sortByName : List Dirent → List Dirent} {directory : Path}
    {entries : List Dirent}
    (hread : host.readdir directory = some entries) (hfiles : ∀ e ∈ sortByName entries, e.kind = .file)
    (hcount : (sortByName entries).length ≤ MAX_RULE_FILES) :
    instructionRuleFiles host sortByName directory = (sortByName entries).map fun e => joinPaths [directory, e.name] := by
  have hentries : MAX_RULE_FILES ≤ MAX_RULE_ENTRIES := by decide
  unfold instructionRuleFiles
  rw [scanDirectories]
  dsimp only
  rw [dif_pos (by decide), hread]
  dsimp only
  rw [scanEntries_files hfiles (by rw [List.length_nil]; omega) (by dsimp only; omega), scanDirectories]
  rfl

/-! ## Digests -/

theorem readUpTo_spec {file : Opened} {total : ℕ} {bytes r : List UInt8} (h : readUpTo file total bytes = some r)
    (hle : bytes.length ≤ total) :
    r.length ≤ total ∧ (r.length < total → file.read r.length (total - r.length) = some []) := by
  fun_induction readUpTo file total bytes with
  | case1 => cases h
  | case2 bytes _ hread =>
    cases h
    exact ⟨hle, fun _ => hread⟩
  | case3 bytes hmore b bs hread ih =>
    have hlen := file.read_le _ _ _ hread
    refine ih h ?_
    rw [List.length_append]
    omega
  | case4 bytes hmore =>
    cases h
    exact ⟨hle, fun hlt => absurd hlt hmore⟩

/-- The file is given so many bytes, and consumes as many unless it ends before. -/
def Consumes (host : Host) (d : JobInstructionDigest) (given : ℕ) : Prop :=
  d.effectiveBytes ≤ given ∧
    (d.effectiveBytes < given → ∃ p file, Utf8.units p = d.path ∧ host.openSync p = some file ∧
      file.read d.effectiveBytes (given - d.effectiveBytes) = some [])

section
variable {sha256 : List UInt8 → Text} {host : Host}

/-- What the digest of a file says. -/
structure Digested (sha256 : List UInt8 → Text) (host : Host) (source : InstructionSource) (remaining : Option ℕ)
    (d : JobInstructionDigest) : Prop where
  path : d.path = Utf8.units source.path
  limit : d.effectiveLimitBytes = source.effectiveLimitBytes
  hashed : ∀ digest, d.sha256 = some digest → ∃ bytes, digest = sha256 bytes
  truncated : d.truncated = true ↔ ∃ n, d.sourceBytes = some n ∧ d.effectiveBytes < n
  unread : d.sourceBytes = none → d.effectiveBytes = 0
  read : ∀ n, d.sourceBytes = some n → n ≤ safe ∧
    Consumes host d (min n ((effectiveLimit source.effectiveLimitBytes remaining).getD n))

theorem digested_unreadable (source : InstructionSource) (remaining : Option ℕ) :
    Digested sha256 host source remaining (unreadable source) :=
  ⟨rfl, rfl, by rintro _ ⟨⟩, by simp [unreadable], fun _ => rfl, by rintro _ ⟨⟩⟩

theorem digested (source : InstructionSource) (remaining : Option ℕ) :
    Digested sha256 host source remaining (digestSource sha256 host source remaining) := by
  unfold digestSource
  cases hopen : host.openSync source.path with
  | none => exact digested_unreadable source remaining
  | some file =>
    dsimp only
    split_ifs
    · refine ⟨rfl, rfl, by rintro _ ⟨⟩, by simp, by rintro ⟨⟩, fun n hn => ?_⟩
      cases hn
      exact ⟨file.size_safe, le_rfl, fun hlt => absurd hlt (lt_irrefl _)⟩
    · cases hread : readUpTo file (allowance source remaining file) [] with
      | none => exact digested_unreadable source remaining
      | some bytes =>
        obtain ⟨hle, hends⟩ := readUpTo_spec hread (Nat.zero_le _)
        refine ⟨rfl, rfl, fun digest hdigest => ⟨bytes, (Option.some.inj hdigest).symm⟩, by simp, by rintro ⟨⟩, fun n hn => ?_⟩
        cases hn
        exact ⟨file.size_safe, hle, fun hlt => ⟨source.path, file, rfl, hopen, hends hlt⟩⟩

/-- No digest consumes more than what is left. -/
theorem Digested.le_remaining {source : InstructionSource} {remaining : ℕ} {d : JobInstructionDigest}
    (h : Digested sha256 host source (some remaining) d) : d.effectiveBytes ≤ remaining := by
  cases hbytes : d.sourceBytes with
  | none =>
    rw [h.unread hbytes]
    exact Nat.zero_le _
  | some n =>
    have hle := (h.read n hbytes).2.1
    unfold effectiveLimit at hle
    cases hlimit : source.effectiveLimitBytes with
    | none =>
      rw [hlimit, Option.getD_some] at hle
      exact hle.trans (Nat.min_le_right _ _)
    | some l =>
      rw [hlimit, Option.getD_some] at hle
      omega

theorem digestSources_paths (sources : List InstructionSource) : ∀ remaining,
    (digestSources sha256 host remaining sources).map (·.path) = (sources.map (·.path)).map Utf8.units := by
  induction sources with
  | nil => exact fun _ => rfl
  | cons source sources ih =>
    intro remaining
    rw [digestSources, List.map_cons, List.map_cons, List.map_cons, ih, (digested source remaining).path]

theorem length_digestSources (remaining : Option ℕ) (sources : List InstructionSource) :
    (digestSources sha256 host remaining sources).length = sources.length := by
  have h : ((digestSources sha256 host remaining sources).map (·.path)).length = _ :=
    congrArg List.length (digestSources_paths sources remaining)
  rwa [List.length_map, List.length_map, List.length_map] at h

/-- Every file is digested under what the files before it leave of the budget. -/
theorem digestSources_split (sources : List InstructionSource) : ∀ {remaining : Option ℕ} {front back : List JobInstructionDigest}
    {d : JobInstructionDigest}, digestSources sha256 host remaining sources = front ++ d :: back →
      ∃ source ∈ sources, Digested sha256 host source (remaining.map fun r => r - (front.map (·.effectiveBytes)).sum) d := by
  induction sources with
  | nil =>
    intro remaining front back d h
    rw [digestSources] at h
    exact absurd h (List.append_ne_nil_of_right_ne_nil _ (List.cons_ne_nil _ _)).symm
  | cons source sources ih =>
    intro remaining front back d h
    rw [digestSources] at h
    cases front with
    | nil =>
      obtain ⟨rfl, -⟩ := List.cons.inj h
      refine ⟨source, List.mem_cons_self, ?_⟩
      have hsame : (remaining.map fun r => r - 0) = remaining := by cases remaining <;> rfl
      rw [List.map_nil, List.sum_nil, hsame]
      exact digested source remaining
    | cons e front =>
      obtain ⟨rfl, hrest⟩ := List.cons.inj h
      obtain ⟨other, hother, hd⟩ := ih hrest
      refine ⟨other, List.mem_cons_of_mem _ hother, ?_⟩
      rw [Option.map_map] at hd
      rw [List.map_cons, List.sum_cons]
      refine Eq.mp (congrArg (fun f => Digested sha256 host other (remaining.map f) d) (funext fun r => ?_)) hd
      exact Nat.sub_sub r _ _

theorem mem_digestSources {remaining : Option ℕ} {sources : List InstructionSource} {d : JobInstructionDigest}
    (h : d ∈ digestSources sha256 host remaining sources) : ∃ source ∈ sources, ∃ left, Digested sha256 host source left d := by
  obtain ⟨front, back, hsplit⟩ := List.append_of_mem h
  obtain ⟨source, hsource, hd⟩ := digestSources_split sources hsplit
  exact ⟨source, hsource, _, hd⟩

theorem sum_digestSources_le (sources : List InstructionSource) : ∀ remaining : ℕ,
    ((digestSources sha256 host (some remaining) sources).map (·.effectiveBytes)).sum ≤ remaining := by
  induction sources with
  | nil => exact fun _ => Nat.zero_le _
  | cons source sources ih =>
    intro remaining
    have hdigested : Digested sha256 host source (some remaining) (digestSource sha256 host source (some remaining)) :=
      digested source (some remaining)
    have hfirst := hdigested.le_remaining
    have hrest := ih (remaining - (digestSource sha256 host source (some remaining)).effectiveBytes)
    rw [digestSources, List.map_cons, List.sum_cons, Option.map_some]
    omega

end

/-! ## Contexts that are stored -/

/-- A digest that the reader takes: its path is absolute and short, and its numbers are safe. -/
structure Storable (d : JobInstructionDigest) : Prop where
  path_le : d.path.length ≤ 4096
  path_head : d.path.head? = some 47
  sha256_le : ∀ digest, d.sha256 = some digest → digest.length ≤ 64
  source_safe : ∀ n, d.sourceBytes = some n → n ≤ safe
  effective_safe : d.effectiveBytes ≤ safe
  limit_safe : ∀ n, d.effectiveLimitBytes = some n → n ≤ safe

theorem plain_numberOrNull {n : Option ℕ} (h : ∀ k, n = some k → k ≤ safe) : JsValue.Plain (numberOrNull n) := by
  cases n with
  | none => trivial
  | some k => exact ⟨k, h k rfl, rfl⟩

theorem plain_textOrNull (s : Option Text) : JsValue.Plain (textOrNull s) := by
  cases s <;> trivial

theorem Storable.plain {d : JobInstructionDigest} (h : Storable d) : JsValue.Plain (.object d.members) := by
  refine ⟨?_, trivial, plain_textOrNull _, plain_numberOrNull h.source_safe, ⟨_, h.effective_safe, rfl⟩,
    plain_numberOrNull h.limit_safe, trivial, trivial, trivial⟩
  show [text "path", text "sha256", text "sourceBytes", text "effectiveBytes", text "effectiveLimitBytes", text "truncated",
    text "status"].Nodup
  decide

theorem JobReplayContext.plain {c : JobReplayContext} (h : ∀ d ∈ c.instructionFiles, Storable d) : JsValue.Plain c.toJson := by
  refine ⟨?_, ⟨1, by decide, by rw [Nat.cast_one]⟩, ?_, plain_textOrNull _, trivial⟩
  · show [text "version", text "instructionFiles", text "repositoryHead"].Nodup
    decide
  · show JsValue.PlainItems _
    rw [JsValue.plainItems_iff]
    intro v hv
    obtain ⟨d, hd, rfl⟩ := List.mem_map.1 hv
    exact (h d hd).plain

theorem width_numberOrNull (n : Option ℕ) : (numberOrNull n).width ≤ 16 := by
  cases n with
  | none => decide
  | some k => exact le_rfl

theorem width_textOrNull {s : Option Text} {k : ℕ} (h : ∀ t, s = some t → t.length ≤ k) :
    (textOrNull s).width ≤ 6 * k + 4 := by
  cases s with
  | none => exact Nat.le_add_left _ _
  | some t =>
    have ht := h t rfl
    show 6 * t.length + 2 ≤ _
    omega

theorem Storable.width {d : JobInstructionDigest} (h : Storable d) : (JsValue.object d.members).width ≤ 32768 := by
  have hpath := h.path_le
  have hsha := width_textOrNull h.sha256_le
  have hsource := width_numberOrNull d.sourceBytes
  have hlimit := width_numberOrNull d.effectiveLimitBytes
  have hstatus : d.status.word.length ≤ 10 := by
    cases d.status <;> decide
  have hnames : (text "path").length = 4 ∧ (text "sha256").length = 6 ∧ (text "sourceBytes").length = 11 ∧
      (text "effectiveBytes").length = 14 ∧ (text "effectiveLimitBytes").length = 19 ∧ (text "truncated").length = 9 ∧
      (text "status").length = 6 := by decide
  obtain ⟨h₁, h₂, h₃, h₄, h₅, h₆, h₇⟩ := hnames
  simp only [JobInstructionDigest.members, JsValue.width, JsValue.widthMembers, h₁, h₂, h₃, h₄, h₅, h₆, h₇]
  omega

theorem JobReplayContext.width {c : JobReplayContext} (h : ∀ d ∈ c.instructionFiles, Storable d)
    (hcount : c.instructionFiles.length ≤ MAX_RULE_FILES) (hhead : ∀ t, c.repositoryHead = some t → t.length ≤ 64) :
    c.toJson.width ≤ MAX_REPLAY_CONTEXT_CHARS := by
  have hhead := width_textOrNull hhead
  have hitems : JsValue.widthItems (c.instructionFiles.map fun d => .object d.members) ≤ 32769 * c.instructionFiles.length := by
    have hlength : (c.instructionFiles.map fun d => JsValue.object d.members).length = c.instructionFiles.length :=
      List.length_map _
    rw [← hlength]
    refine JsValue.widthItems_le fun v hv => ?_
    obtain ⟨d, hd, rfl⟩ := List.mem_map.1 hv
    exact (h d hd).width
  have hnames : (text "version").length = 7 ∧ (text "instructionFiles").length = 16 ∧ (text "repositoryHead").length = 14 := by
    decide
  obtain ⟨h₁, h₂, h₃⟩ := hnames
  have hmax : MAX_RULE_FILES = 256 ∧ MAX_REPLAY_CONTEXT_CHARS = 20971520 := ⟨rfl, rfl⟩
  rw [hmax.1] at hcount
  rw [hmax.2]
  simp only [JobReplayContext.toJson, JsValue.width, JsValue.widthMembers, h₁, h₂, h₃]
  omega

theorem Storable.isInstructionDigest {d : JobInstructionDigest} (h : Storable d) : isInstructionDigest d.members = true := by
  have hpath : hasPath (.string d.path) = true := by
    have hle : d.path.length ≤ MAX_REPLAY_PATH_CHARS := h.path_le.trans (by decide)
    simp [hasPath, hle, h.path_head]
  have hsha : (isString (textOrNull d.sha256) || isNull (textOrNull d.sha256)) = true := by
    cases d.sha256 <;> rfl
  have hnumber (n : Option ℕ) : (isNumber (numberOrNull n) || isNull (numberOrNull n)) = true := by
    cases n <;> rfl
  have hstatus : isStatus (.string d.status.word) = true := by
    cases d.status <;> decide
  have hget (kind : JsValue → Bool) : hasKind kind "path" d.members = kind (.string d.path) ∧
      hasKind kind "sha256" d.members = kind (textOrNull d.sha256) ∧
      hasKind kind "sourceBytes" d.members = kind (numberOrNull d.sourceBytes) ∧
      hasKind kind "effectiveBytes" d.members = kind (.number (.finite d.effectiveBytes)) ∧
      hasKind kind "effectiveLimitBytes" d.members = kind (numberOrNull d.effectiveLimitBytes) ∧
      hasKind kind "truncated" d.members = kind (.boolean d.truncated) ∧
      hasKind kind "status" d.members = kind (.string d.status.word) := ⟨rfl, rfl, rfl, rfl, rfl, rfl, rfl⟩
  unfold Replay.isInstructionDigest
  rw [(hget _).1, (hget _).2.1, (hget _).2.2.1, (hget _).2.2.2.1, (hget _).2.2.2.2.1, (hget _).2.2.2.2.2.1,
    (hget _).2.2.2.2.2.2, hpath, hsha, hnumber, hnumber, hstatus]
  rfl

theorem readFiles_map {ds : List JobInstructionDigest} (h : ∀ d ∈ ds, Storable d) :
    readFiles (ds.map fun d => .object d.members) = some (ds.map (·.members)) := by
  induction ds with
  | nil => rfl
  | cons d ds ih =>
    rw [List.map_cons, readFiles, if_pos (h d List.mem_cons_self).isInstructionDigest,
      ih fun e he => h e (List.mem_cons_of_mem _ he)]
    rfl

/-- The reader takes the context as an object exactly if there are not too many files. -/
theorem parseRecord_toJson {c : JobReplayContext} (h : ∀ d ∈ c.instructionFiles, Storable d)
    (hhead : ∀ t, c.repositoryHead = some t → t.length ≤ 64) :
    parseRecord c.toJson = if c.instructionFiles.length ≤ MAX_RULE_FILES then some c.object else none := by
  have hread : readHead (some (textOrNull c.repositoryHead)) = some c.repositoryHead := by
    cases hsome : c.repositoryHead with
    | none => rfl
    | some t => exact if_pos ((hhead t hsome).trans (by decide))
  have hrecord : parseRecord c.toJson =
      if (1 : ℚ) = 1 ∧ (c.instructionFiles.map fun d => JsValue.object d.members).length ≤ MAX_RULE_FILES then
        (readHead (some (textOrNull c.repositoryHead))).bind fun head =>
          (readFiles (c.instructionFiles.map fun d => .object d.members)).map fun files => ⟨files, head⟩
      else none := rfl
  rw [hrecord, hread, readFiles_map h, List.length_map]
  simp only [true_and]
  rfl

/-- **A context of short paths is read back exactly if there are not too many files.** -/
theorem parse_toJson (P : JsValue.NumberText) {c : JobReplayContext} (h : ∀ d ∈ c.instructionFiles, Storable d)
    (hhead : ∀ t, c.repositoryHead = some t → t.length ≤ 64) :
    parseJobReplayContext (JsValue.stringify P c.toJson) =
      if c.instructionFiles.length ≤ MAX_RULE_FILES then some c.object else none := by
  unfold parseJobReplayContext
  split_ifs with hlong hcount
  · have hwidth := (JsValue.length_stringify_le (P := P) _ (JobReplayContext.plain h)).trans
      (JobReplayContext.width h hcount hhead)
    exact absurd hlong (Nat.not_lt.2 hwidth)
  · rfl
  · rw [JsValue.parse_stringify (JobReplayContext.plain h), Option.bind_some, parseRecord_toJson h hhead, if_pos ‹_›]
  · rw [JsValue.parse_stringify (JobReplayContext.plain h), Option.bind_some, parseRecord_toJson h hhead, if_neg ‹_›]

/-! ## Contexts that are captured -/

/-- The context reads back, no path stands twice, a file is called truncated exactly if fewer bytes are consumed than there
are, and under the budget of Codex every file consumes what those before it leave. -/
structure Faithful (P : JsValue.NumberText) (host : Host) (provider : Provider) (c : JobReplayContext) : Prop where
  reads_back : parseJobReplayContext (JsValue.stringify P c.toJson) = some c.object
  once : (c.instructionFiles.map (·.path)).Nodup
  budget : provider = .codex → (c.instructionFiles.map (·.effectiveBytes)).sum ≤ CODEX_PROJECT_DOC_MAX_BYTES
  rest : provider = .codex → ∀ front d back, c.instructionFiles = front ++ d :: back → ∀ n, d.sourceBytes = some n →
    Consumes host d (min n (CODEX_PROJECT_DOC_MAX_BYTES - (front.map (·.effectiveBytes)).sum))
  truncated : ∀ d ∈ c.instructionFiles, d.truncated = true ↔ ∃ n, d.sourceBytes = some n ∧ d.effectiveBytes < n

section
variable {sha256 : List UInt8 → Text} {host : Host} {provider : Provider}

theorem length_repositoryHead {cwd : Path} {t : Text} (h : repositoryHead host cwd = some t) : t.length ≤ 64 := by
  unfold repositoryHead at h
  obtain ⟨head, hfilter, rfl⟩ := Option.map_eq_some_iff.1 h
  obtain ⟨-, hok⟩ := Option.filter_eq_some_iff.1 hfilter
  rw [Bool.and_eq_true, decide_eq_true_eq] at hok
  rw [List.length_map]
  exact hok.1.2

theorem providerLimit_le {n : ℕ} (h : providerLimit provider = some n) : n ≤ safe := by
  unfold providerLimit at h
  split_ifs at h
  cases h
  decide

theorem storable_of_digested (hsha : ∀ bytes, (sha256 bytes).length = 64) {sources : List InstructionSource}
    (hsources : Discovered host (providerLimit provider) sources) {source : InstructionSource} (hsource : source ∈ sources)
    {left : Option ℕ} {d : JobInstructionDigest} (h : Digested sha256 host source left d) : Storable d := by
  refine ⟨?_, ?_, fun digest hdigest => ?_, fun n hn => (h.read n hn).1, ?_, fun n hn => ?_⟩
  · rw [h.path]
    exact host.path_max _ (hsources.file source hsource)
  · have hhead := hsources.absolute source hsource
    rw [h.path]
    obtain ⟨rest, hrest⟩ : ∃ rest, source.path = '/' :: rest := by
      cases hpath : source.path with
      | nil =>
        rw [hpath] at hhead
        cases hhead
      | cons c rest =>
        rw [hpath, List.head?_cons, Option.some_inj] at hhead
        exact ⟨rest, by rw [hhead]⟩
    rw [hrest]
    rfl
  · obtain ⟨bytes, rfl⟩ := h.hashed digest hdigest
    exact (hsha bytes).le
  · cases hbytes : d.sourceBytes with
    | none =>
      rw [h.unread hbytes]
      exact Nat.zero_le _
    | some n =>
      obtain ⟨hsafe, hle, -⟩ := h.read n hbytes
      exact (hle.trans (Nat.min_le_left _ _)).trans hsafe
  · rw [h.limit, hsources.limited source hsource] at hn
    exact providerLimit_le hn

/-- Under the budget of Codex the limit of the file is no smaller than what is left. -/
theorem effectiveLimit_codex {left : ℕ} (h : left ≤ CODEX_PROJECT_DOC_MAX_BYTES) (n : ℕ) :
    (effectiveLimit (providerLimit .codex) (some left)).getD n = left := by
  show min CODEX_PROJECT_DOC_MAX_BYTES left = left
  exact Nat.min_eq_right h

variable {sortByName : List Dirent → List Dirent} {scope : JobCwdScope} {path : Option Path} {kit : Bool} {home : Path}
  {c : JobReplayContext}

theorem capture_cases (h : captureJobReplayContext sha256 host sortByName provider scope path kit home = some c) :
    kit = false ∧ c.instructionFiles = digestSources sha256 host (providerLimit provider)
        (discoverInstructionSources host sortByName provider (effectiveCwd scope path) home) ∧
      ∀ t, c.repositoryHead = some t → t.length ≤ 64 := by
  unfold captureJobReplayContext at h
  split_ifs at h with hkit
  cases h
  rw [Bool.not_eq_true] at hkit
  refine ⟨hkit, rfl, fun t ht => ?_⟩
  obtain ⟨cwd, -, hhead⟩ := Option.bind_eq_some_iff.1 ht
  exact length_repositoryHead hhead

/-- **A captured context is faithful exactly if no more files than `MAX_RULE_FILES` are discovered.** -/
theorem faithful_iff (P : JsValue.NumberText) (hsha : ∀ bytes, (sha256 bytes).length = 64)
    (h : captureJobReplayContext sha256 host sortByName provider scope path kit home = some c) :
    Faithful P host provider c ↔
      (instructionFiles host sortByName provider (effectiveCwd scope path) home).card ≤ MAX_RULE_FILES := by
  obtain ⟨-, hfiles, hhead⟩ := capture_cases h
  have hsources : Discovered host (providerLimit provider)
      (discoverInstructionSources host sortByName provider (effectiveCwd scope path) home) := discovered provider _ home
  have hstorable : ∀ d ∈ c.instructionFiles, Storable d := by
    intro d hd
    rw [hfiles] at hd
    obtain ⟨source, hsource, left, hdigested⟩ := mem_digestSources hd
    exact storable_of_digested hsha hsources hsource hdigested
  have hcount : c.instructionFiles.length = (instructionFiles host sortByName provider (effectiveCwd scope path) home).card := by
    rw [hfiles, length_digestSources, length_discover]
  have hread := parse_toJson P hstorable hhead
  rw [hcount] at hread
  constructor
  · intro hfaithful
    by_contra hmany
    have hback := hfaithful.reads_back
    rw [hread, if_neg hmany] at hback
    cases hback
  · intro hfew
    refine ⟨by rw [hread, if_pos hfew], ?_, ?_, ?_, ?_⟩
    · rw [hfiles, digestSources_paths]
      exact hsources.nodup.map Utf8.units_injective
    · rintro rfl
      rw [hfiles]
      exact sum_digestSources_le _ CODEX_PROJECT_DOC_MAX_BYTES
    · rintro rfl front d back hsplit n hn
      rw [hfiles] at hsplit
      obtain ⟨source, hsource, hd⟩ := digestSources_split _ hsplit
      have hread := (hd.read n hn).2
      rw [hsources.limited source hsource] at hread
      have hleft := effectiveLimit_codex
        (Nat.sub_le CODEX_PROJECT_DOC_MAX_BYTES (front.map (·.effectiveBytes)).sum) n
      rw [← hleft]
      exact hread
    · intro d hd
      rw [hfiles] at hd
      obtain ⟨source, -, left, hdigested⟩ := mem_digestSources hd
      exact hdigested.truncated

/-- **Every context that is captured reads back, and says what it should, exactly where at most `MAX_RULE_FILES` instruction files
are found.** -/
theorem replay_context_iff (P : JsValue.NumberText) (hsha : ∀ bytes, (sha256 bytes).length = 64) (host : Host)
    (sortByName : List Dirent → List Dirent) (provider : Provider) (scope : JobCwdScope) (path : Option Path) (kit : Bool)
    (home : Path) :
    (∀ c, captureJobReplayContext sha256 host sortByName provider scope path kit home = some c → Faithful P host provider c) ↔
      kit = true ∨ (instructionFiles host sortByName provider (effectiveCwd scope path) home).card ≤ MAX_RULE_FILES := by
  constructor
  · intro h
    cases kit with
    | true => exact .inl rfl
    | false =>
      have hcaptured : captureJobReplayContext sha256 host sortByName provider scope path false home = some _ :=
        if_neg (by decide)
      exact .inr ((faithful_iff P hsha hcaptured).1 (h _ hcaptured))
  · rintro (rfl | hfew) c hc
    · exact absurd (capture_cases hc).1 (by decide)
    · exact (faithful_iff P hsha hc).2 hfew

/-- A home with instructions for Codex, of 40000 bytes. -/
def smallHost : Host where
  cwd := ['/']
  isFile p := p == render ["h".toList, ".codex".toList, "AGENTS.md".toList]
  existsSync _ := false
  lstat _ := none
  readdir _ := none
  openSync _ := some ⟨true, 40000, fun _ n => some (List.replicate n 97), by decide, by simp⟩
  toplevel _ := none
  head _ := none
  path_max p h := by
    rw [beq_iff_eq] at h
    rw [h]
    decide

/-- A digest of zeros. -/
def zeros (_ : List UInt8) : Text := List.replicate 64 48

theorem replay_context_of_codex :
    ∃ c, captureJobReplayContext zeros smallHost id .codex .neutral none false ['/', 'h'] = some c ∧
      Faithful JsValue.fractionText smallHost .codex c := by
  have hcaptured : captureJobReplayContext zeros smallHost id .codex .neutral none false ['/', 'h'] = some _ :=
    if_neg (by decide)
  refine ⟨_, hcaptured, ?_⟩
  exact (replay_context_iff _ (fun _ => List.length_replicate) smallHost id .codex .neutral none false ['/', 'h']).2
    (.inr (by decide +kernel)) _ hcaptured

/-! ## A repository with many rules -/

/-- A letter, so many times. -/
def ruleName (k : ℕ) : Name := List.replicate (k + 1) 'x'

def rulesDirectory : List Name := ["r".toList, ".claude".toList, "rules".toList]

def memory : List Name := ["r".toList, "CLAUDE.md".toList]

def ruleEntries : List Dirent := (List.range MAX_RULE_FILES).map fun k => ⟨ruleName k, .file⟩

theorem length_ruleEntries : ruleEntries.length = MAX_RULE_FILES := by
  rw [ruleEntries, List.length_map, List.length_range]

/-- A repository with a file of instructions and as many rules as one directory may have. -/
def crowdedHost : Host where
  cwd := ['/']
  isFile p := decide (p.length ≤ 1000) && (p == render memory || (names p).dropLast == rulesDirectory)
  existsSync p := names p == rulesDirectory
  lstat p := some (if names p = rulesDirectory then .dir else .file)
  readdir p := if names p = rulesDirectory then some ruleEntries else none
  openSync _ := none
  toplevel _ := some ['/', 'r']
  head _ := none
  path_max p h := by
    have hunits := Utf8.length_units_le p
    rw [Bool.and_eq_true, decide_eq_true_eq] at h
    omega

theorem proper_ruleName (k : ℕ) : Proper (ruleName k) := by
  refine ⟨List.cons_ne_nil _ _, fun h => ?_, fun h => ?_, fun h => ?_⟩
  · have hfirst : 'x' = '.' := (List.cons.inj h).1
    exact absurd hfirst (by decide)
  · have hfirst : 'x' = '.' := (List.cons.inj h).1
    exact absurd hfirst (by decide)
  · exact absurd (List.eq_of_mem_replicate h) (by decide)

theorem ruleName_injective : Function.Injective ruleName := by
  intro k l h
  have hlength := congrArg List.length h
  rw [ruleName, ruleName, List.length_replicate, List.length_replicate] at hlength
  omega

/-- The files of the repository. -/
def crowd : List (List Name) := memory :: (List.range MAX_RULE_FILES).map fun k => rulesDirectory ++ [ruleName k]

theorem proper_crowd {ns : List Name} (h : ns ∈ crowd) : ∀ n ∈ ns, Proper n := by
  have hproper (n : Name) (hn : n ∈ memory ++ rulesDirectory) : Proper n := by
    have hall : ∀ n ∈ memory ++ rulesDirectory, n ≠ [] ∧ n ≠ dot ∧ n ≠ dotdot ∧ '/' ∉ n := by decide +kernel
    obtain ⟨h₁, h₂, h₃, h₄⟩ := hall n hn
    exact ⟨h₁, h₂, h₃, h₄⟩
  rcases List.mem_cons.1 h with rfl | h
  · exact fun n hn => hproper n (List.mem_append_left _ hn)
  · obtain ⟨k, -, rfl⟩ := List.mem_map.1 h
    intro n hn
    rcases List.mem_append.1 hn with hn | hn
    · exact hproper n (List.mem_append_right _ hn)
    · rw [List.mem_singleton.1 hn]
      exact proper_ruleName k

theorem nodup_crowd : crowd.Nodup := by
  refine List.nodup_cons.2 ⟨fun h => ?_, List.nodup_range.map fun k l h => ?_⟩
  · obtain ⟨k, -, hk⟩ := List.mem_map.1 h
    have hlength := congrArg List.length hk
    rw [List.length_append, List.length_singleton] at hlength
    exact absurd hlength (by decide)
  · exact ruleName_injective (List.singleton_inj.1 (List.append_cancel_left h))

theorem isFile_crowd {ns : List Name} (h : ns ∈ crowd) : crowdedHost.isFile (render ns) = true := by
  have hnames := names_render (proper_crowd h)
  rcases List.mem_cons.1 h with rfl | h
  · decide +kernel
  · obtain ⟨k, hk, rfl⟩ := List.mem_map.1 h
    have hlength : (render (rulesDirectory ++ [ruleName k])).length ≤ 1000 := by
      have hdirectory : (render rulesDirectory).length = 16 := by decide
      have hmax : MAX_RULE_FILES = 256 := rfl
      have hk := List.mem_range.1 hk
      rw [render_append, if_neg (by decide), List.length_append, List.length_append, hdirectory, List.length_singleton, ruleName,
        List.length_replicate]
      omega
    show (decide _ && (_ || (names _).dropLast == rulesDirectory)) = true
    rw [hnames, List.dropLast_concat, decide_eq_true hlength]
    simp

/-- The provider looks at all of them. -/
theorem mem_instructionPaths_crowd {ns : List Name} (h : ns ∈ crowd) :
    render ns ∈ instructionPaths crowdedHost id .claude (some ['/', 'r']) ['/', 'h'] := by
  have hancestors : ((repositoryRoot crowdedHost ['/', 'r']).elim (ancestorsFromRoot crowdedHost ['/', 'r']) fun root =>
      (ancestorsFromRoot crowdedHost ['/', 'r']).filter (isWithin root)) = [['/', 'r']] := by decide +kernel
  have hmemory : below ['/', 'r'] ["CLAUDE.md"] = render memory := by decide +kernel
  have hdirectory : names (below ['/', 'r'] [".claude", "rules"]) = rulesDirectory ∧
      isAbsolute (below ['/', 'r'] [".claude", "rules"]) = true := by decide +kernel
  have hrules : rulePaths crowdedHost id (below ['/', 'r'] [".claude", "rules"]) =
      (List.range MAX_RULE_FILES).map fun k => render (rulesDirectory ++ [ruleName k]) := by
    generalize below ['/', 'r'] [".claude", "rules"] = directory at hdirectory
    obtain ⟨hnames, habsolute⟩ := hdirectory
    have hread : crowdedHost.readdir directory = some ruleEntries := if_pos hnames
    have hfiles : ∀ e ∈ id ruleEntries, e.kind = .file := by
      intro e he
      obtain ⟨k, -, rfl⟩ := List.mem_map.1 he
      rfl
    have hthere : (crowdedHost.existsSync directory && crowdedHost.lstat directory == some .dir) = true := by
      show (names directory == rulesDirectory &&
        some (if names directory = rulesDirectory then EntryKind.dir else .file) == some .dir) = true
      rw [hnames, if_pos rfl]
      decide
    unfold rulePaths
    rw [if_pos hthere, instructionRuleFiles_of_files hread hfiles length_ruleEntries.le, id, ruleEntries, List.map_map]
    refine List.map_congr_left fun k _ => ?_
    show joinPaths [directory, ruleName k] = _
    rw [joinPaths_proper habsolute (by simpa using proper_ruleName k) (List.cons_ne_nil _ _), hnames]
  refine List.mem_append_right _ ?_
  show render ns ∈ projectPaths crowdedHost id .claude ['/', 'r']
  unfold projectPaths
  dsimp only
  rw [hancestors, if_neg (by decide), List.flatMap_singleton]
  unfold directoryPaths
  dsimp only
  rw [hmemory, hrules]
  rcases List.mem_cons.1 h with rfl | h
  · exact List.mem_append_left _ List.mem_cons_self
  · obtain ⟨k, hk, rfl⟩ := List.mem_map.1 h
    exact List.mem_append_right _ (List.mem_map.2 ⟨k, hk, rfl⟩)

/-- **A context of 257 files is captured, and does not read back.** -/
theorem crowded_context_is_lost : ¬∀ c,
    captureJobReplayContext zeros crowdedHost id .claude .other (some ['/', 'r']) false ['/', 'h'] = some c →
      Faithful JsValue.fractionText crowdedHost .claude c := by
  intro h
  have hcaptured : captureJobReplayContext zeros crowdedHost id .claude .other (some ['/', 'r']) false ['/', 'h'] = some _ :=
    if_neg (by decide)
  have hfew := (faithful_iff JsValue.fractionText (fun _ => List.length_replicate) hcaptured).1 (h _ hcaptured)
  have hsubset : (crowd.map render).toFinset ⊆ instructionFiles crowdedHost id .claude (some ['/', 'r']) ['/', 'h'] := by
    intro p hp
    obtain ⟨ns, hns, rfl⟩ := List.mem_map.1 (List.mem_toFinset.1 hp)
    refine List.mem_toFinset.2 (List.mem_filter.2 ⟨List.mem_map.2 ⟨_, mem_instructionPaths_crowd hns, ?_⟩, isFile_crowd hns⟩)
    exact resolve_render (proper_crowd hns)
  have hnodup : (crowd.map render).Nodup :=
    (List.nodup_map_iff_inj_on nodup_crowd).2 fun ms hms ns hns heq => render_injective (proper_crowd hms) (proper_crowd hns) heq
  have hcard := Finset.card_le_card hsubset
  rw [List.toFinset_card_of_nodup hnodup, List.length_map, crowd, List.length_cons, List.length_map, List.length_range] at hcard
  exact absurd (hcard.trans hfew) (Nat.not_succ_le_self _)

end

end LlmGateway.Replay
