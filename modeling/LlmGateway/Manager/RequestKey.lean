import LlmGateway.Lib.Utf16
import Mathlib.Data.List.Nodup

/-!
# `buildRequestKey`: the key under which a request may reuse a job

* `Request` — the arguments of `buildRequestKey`, and the context it reads;
* `Tail.Unambiguous` — no other segments write the same text (`unambiguous_iff`);
* `identifies_iff` — the requests whose key identifies them.
-/

namespace LlmGateway.Manager.RequestKey

open LlmGateway.Lib.Utf16

/-- `NodeJS.ProcessEnv`: a value may be `undefined`. -/
structure Env where
  entries : List (Text × Option Text)
  nodup : (entries.map Prod.fst).Nodup

inductive AuthKind where
  | disabled
  | gateway_bearer
  | oauth
deriving DecidableEq

structure GatewayRequestContext where
  authKind : Option AuthKind
  authPrincipal : Option Text

def localPrincipal : Text := text "local"

def resolveOwnerPrincipal : Option GatewayRequestContext → Text
  | none => localPrincipal
  | some ctx =>
    match ctx.authPrincipal with
    | some (c :: p) => c :: p
    | _ => if ctx.authKind = some .gateway_bearer then text "gateway-bearer" else localPrincipal

/-- The arguments of `buildRequestKey`, with the context of the request. -/
structure Request where
  cli : Text
  args : List Text
  env : Option Env
  stdin : Option Text
  cwd : Option Text
  outputFormat : Option Text
  compressResponse : Option Bool
  context : Option GatewayRequestContext

/-- The pairs whose value is defined. -/
def definedEntries : Option Env → List (Text × Text)
  | none => []
  | some env => env.entries.filterMap fun e => e.2.map fun v => (e.1, v)

/-- `entries.sort`, by the code units of the keys. -/
def sortEntries (entries : List (Text × Text)) : List (Text × Text) := entries.mergeSort fun a b => decide (a.1 ≤ b.1)

def canonicaliseEnvForKey (env : Option Env) : Text :=
  let entries := definedEntries env
  if entries.isEmpty then []
  else jsonArray (jsonArray quote) ((sortEntries entries).map fun e => [e.1, e.2])

def codex : Text := text "codex"

/-! ### The marks of the segments -/

def stdinMark : Text := text "|stdin:"
def cwdMark : Text := text "|cwd:"
def fmtMark : Text := text "|fmt:"
def compressMark : Text := text "|compress:1"
def principalMark : Text := text "|principal:"

/-- `JSON.stringify({ cli, args, extra })` -/
def payload (cli : Text) (args : List Text) (extra : Text) : Text :=
  text "\x7b\"cli\":" ++ (quote cli ++ (text ",\"args\":" ++ (jsonArray quote args ++
    (text ",\"extra\":" ++ (quote extra ++ text "\x7d")))))

section key
variable {Digest : Type*} (sha256 : Text → Digest)

def computeRequestKey (cli : Text) (args : List Text) (extra : Text) : Digest := sha256 (payload cli args extra)

/-- The third argument that `buildRequestKey` gives `computeRequestKey`. -/
def Request.extra (r : Request) : Text :=
  let extraEnv := canonicaliseEnvForKey r.env
  let withStdin := match r.stdin with
    | none => extraEnv
    | some stdin => extraEnv ++ (stdinMark ++ stdin)
  let withCwd := match r.cwd with
    | none => withStdin
    | some cwd => withStdin ++ (cwdMark ++ cwd)
  let withFmt := if r.cli = codex then withCwd ++ (fmtMark ++ r.outputFormat.getD (text "text")) else withCwd
  let extra := if r.compressResponse = some true then withFmt ++ compressMark else withFmt
  let principal := resolveOwnerPrincipal r.context
  if principal = localPrincipal then extra else extra ++ (principalMark ++ principal)

def buildRequestKey (r : Request) : Digest := computeRequestKey sha256 r.cli r.args r.extra

/-- A job as the lookup finds it: the key of its row, the request it was started for, and its owner. -/
structure DedupJob (Digest : Type*) where
  requestKey : Digest
  request : Request
  ownerPrincipal : Option Text

def principalCanAccess (rowOwner : Option Text) (caller : Text) : Bool :=
  rowOwner == some caller || (rowOwner.isNone && caller == localPrincipal)

/-- `tryReuseDedupedJob`; `findByRequestKey` is the lookup of the store, and of the job behind the row it finds. -/
def tryReuseDedupedJob (findByRequestKey : Digest → Option (DedupJob Digest)) (r : Request) :
    Option (DedupJob Digest) :=
  match findByRequestKey (buildRequestKey sha256 r) with
  | none => none
  | some job =>
    if principalCanAccess job.ownerPrincipal (resolveOwnerPrincipal r.context) then some job else none

end key

/-- Two requests are the same request. -/
structure Agree (r r' : Request) : Prop where
  cli : r.cli = r'.cli
  args : r.args = r'.args
  env : ∀ e, e ∈ definedEntries r.env ↔ e ∈ definedEntries r'.env
  stdin : r.stdin = r'.stdin
  cwd : r.cwd = r'.cwd
  compress : r.compressResponse = some true ↔ r'.compressResponse = some true
  principal : resolveOwnerPrincipal r.context = resolveOwnerPrincipal r'.context
  outputFormat : r.cli = codex → r.outputFormat.getD (text "text") = r'.outputFormat.getD (text "text")

/-! ### The payload and the environment can be read back -/

theorem payload_inj {cli cli' : Text} {args args' : List Text} {extra extra' : Text}
    (h : payload cli args extra = payload cli' args' extra') : cli = cli' ∧ args = args' ∧ extra = extra' := by
  obtain ⟨hcli, h₁⟩ := selfDelimiting_quote _ _ _ _ (List.append_cancel_left h)
  obtain ⟨hargs, h₂⟩ := selfDelimiting_jsonArray selfDelimiting_quote head_quote _ _ _ _ (List.append_cancel_left h₁)
  obtain ⟨hextra, -⟩ := selfDelimiting_quote _ _ _ _ (List.append_cancel_left h₂)
  exact ⟨hcli, hargs, hextra⟩

theorem wellFormed_payload (cli : Text) (args : List Text) (extra : Text) : WellFormed (payload cli args extra) := by
  have hargs : WellFormed (jsonArray quote args) := wellFormed_jsonArray wellFormed_quote args
  refine WellFormed.append (by decide) ((wellFormed_quote cli).append ?_)
  refine WellFormed.append (by decide) (hargs.append ?_)
  exact WellFormed.append (by decide) ((wellFormed_quote extra).append (by decide))

theorem definedEntries_nodup (env : Option Env) : ((definedEntries env).map Prod.fst).Nodup := by
  cases env with
  | none => exact List.nodup_nil
  | some env =>
    have hsub : ((definedEntries (some env)).map Prod.fst).Sublist (env.entries.map Prod.fst) := by
      rw [definedEntries]
      induction env.entries with
      | nil => exact List.Sublist.slnil
      | cons e es ih =>
        obtain ⟨k, v⟩ := e
        cases v with
        | none => exact ih.cons k
        | some v => exact ih.cons_cons k
    exact env.nodup.sublist hsub

/-- The sorted entries are determined by the set of entries. -/
theorem sortEntries_eq_iff {es es' : List (Text × Text)} (h : (es.map Prod.fst).Nodup) (h' : (es'.map Prod.fst).Nodup) :
    sortEntries es = sortEntries es' ↔ ∀ e, e ∈ es ↔ e ∈ es' := by
  have hperm : ∀ l, (sortEntries l).Perm l := fun l => List.mergeSort_perm l _
  have hsorted : ∀ l : List (Text × Text), (sortEntries l).Pairwise fun a b => decide (a.1 ≤ b.1) = true := by
    intro l
    refine List.pairwise_mergeSort (fun a b c hab hbc => ?_) (fun a b => ?_) l
    · exact decide_eq_true (List.le_trans (of_decide_eq_true hab) (of_decide_eq_true hbc))
    · simpa using List.le_total a.1 b.1
  constructor
  · intro he e
    rw [← (hperm es).mem_iff, he, (hperm es').mem_iff]
  · intro hmem
    have hes : es.Perm es' := (List.perm_ext_iff_of_nodup h.of_map h'.of_map).2 hmem
    refine List.Perm.eq_of_pairwise (fun a b ha hb hab hba => ?_) (hsorted es) (hsorted es')
      ((hperm es).trans (hes.trans (hperm es').symm))
    have hkey : a.1 = b.1 := List.le_antisymm (of_decide_eq_true hab) (of_decide_eq_true hba)
    have ha' : a ∈ es' := (hmem a).1 ((hperm es).mem_iff.1 ha)
    exact List.inj_on_of_nodup_map h' ha' ((hperm es').mem_iff.1 hb) hkey

/-! ### The segments behind the environment -/

/-- The optional segments; the principal is absent for `"local"`. -/
structure Tail where
  stdin : Option Text
  cwd : Option Text
  fmt : Option Text
  compress : Bool
  principal : Option Text

def segment (mark : Text) : Option Text → Text
  | none => []
  | some t => mark ++ t

/-- The last two segments. -/
def ending (compress : Bool) (principal : Option Text) : Text :=
  (if compress then compressMark else []) ++ segment principalMark principal

def Tail.write (t : Tail) : Text :=
  segment stdinMark t.stdin ++ (segment cwdMark t.cwd ++ (segment fmtMark t.fmt ++ ending t.compress t.principal))

/-- The principal is one that `resolveOwnerPrincipal` can return, and is not the local one. -/
def Tail.Valid (t : Tail) : Prop := ∀ p, t.principal = some p → p ≠ [] ∧ p ≠ localPrincipal

def Request.tail (r : Request) : Tail where
  stdin := r.stdin
  cwd := r.cwd
  fmt := if r.cli = codex then some (r.outputFormat.getD (text "text")) else none
  compress := decide (r.compressResponse = some true)
  principal := if resolveOwnerPrincipal r.context = localPrincipal then none else some (resolveOwnerPrincipal r.context)

/-- The text does not end like the segments that may follow it. -/
def ClearEnd (t : Text) : Prop :=
  ¬compressMark <:+ t ∧ ∀ p, p ≠ [] → p ≠ localPrincipal → ¬principalMark ++ p <:+ t

/-- No other segments write the same text: there is at most one free text in front of the format, no segment that the
last free text could swallow, and no mark inside a free text that another reading could take for its own. -/
def Tail.Unambiguous (t : Tail) : Prop :=
  match t.stdin, t.cwd, t.fmt with
  | some _, some _, _ => False
  | none, none, none => True
  | none, none, some fmt => t.compress = false ∧ t.principal = none ∧ ClearEnd fmt
  | some stdin, none, none => t.compress = false ∧ t.principal = none ∧ ¬cwdMark <:+: stdin ∧ ClearEnd stdin
  | none, some cwd, none => t.compress = false ∧ t.principal = none ∧ ClearEnd cwd
  | some stdin, none, some fmt => t.compress = false ∧ t.principal = none ∧ ¬cwdMark <:+: stdin ∧
      ¬fmtMark <:+: stdin ∧ ¬fmtMark <:+: fmt ∧ ClearEnd fmt
  | none, some cwd, some fmt => t.compress = false ∧ t.principal = none ∧ ¬fmtMark <:+: cwd ∧ ¬fmtMark <:+: fmt ∧
      ClearEnd fmt

/-! A mark begins with a bar and has no other. -/

section marks

variable {c : UInt16} {m x y s f : Text}

/-- A mark that is nowhere in two texts splits their concatenation around it in one way only. -/
theorem split_unique (hc : c ∉ m) (hs : ¬(c :: m) <:+: s) (hf : ¬(c :: m) <:+: f)
    (h : x ++ (c :: m ++ y) = s ++ (c :: m ++ f)) : x = s ∧ y = f := by
  -- a mark that begins before another one has ended begins with it
  have hshort : ∀ a u v : Text, c :: m ++ u = a ++ (c :: m ++ v) →
      a = [] ∨ ∃ d, a = c :: m ++ d ∧ u = d ++ (c :: m ++ v) := by
    intro a u v he
    rcases List.append_eq_append_iff.1 he with ⟨d, hd, hu⟩ | ⟨d, hd, hv⟩
    · exact Or.inr ⟨d, hd, hu⟩
    · cases a with
      | nil => exact Or.inl rfl
      | cons b a =>
        simp only [List.cons_append, List.cons.injEq] at hd
        cases d with
        | nil =>
          refine Or.inr ⟨[], ?_, ?_⟩
          · rw [List.append_nil, hd.2, List.append_nil, hd.1]
          · simpa using hv.symm
        | cons e d =>
          simp only [List.cons_append, List.cons.injEq] at hv
          refine absurd ?_ hc
          rw [hd.2, hv.1]
          exact List.mem_append_right _ List.mem_cons_self
  rcases List.append_eq_append_iff.1 h with ⟨a, ha, he⟩ | ⟨a, ha, he⟩
  · rcases hshort a y f he with rfl | ⟨d, rfl, -⟩
    · exact ⟨by rw [ha, List.append_nil], List.append_cancel_left he⟩
    · exact absurd ⟨x, d, by rw [ha, List.append_assoc]⟩ hs
  · rcases hshort a f y he with rfl | ⟨d, -, rfl⟩
    · exact ⟨by rw [ha, List.append_nil], (List.append_cancel_left he).symm⟩
    · exact absurd ⟨d, y, by simp⟩ hf

end marks

theorem stdinMark_eq : stdinMark = [124, 115, 116, 100, 105, 110, 58] := by decide
theorem cwdMark_eq : cwdMark = [124, 99, 119, 100, 58] := by decide
theorem fmtMark_eq : fmtMark = [124, 102, 109, 116, 58] := by decide
theorem compressMark_eq : compressMark = [124, 99, 111, 109, 112, 114, 101, 115, 115, 58, 49] := by decide
theorem principalMark_eq : principalMark = [124, 112, 114, 105, 110, 99, 105, 112, 97, 108, 58] := by decide

theorem split_fmt {x y s f : Text} (hs : ¬fmtMark <:+: s) (hf : ¬fmtMark <:+: f)
    (h : x ++ (fmtMark ++ y) = s ++ (fmtMark ++ f)) : x = s ∧ y = f := by
  rw [fmtMark_eq] at *
  exact split_unique (by decide) hs hf h

@[simp] theorem ending_none : ending false none = [] := rfl

theorem ending_inj {c c' : Bool} {p p' : Option Text} (h : ending c p = ending c' p') : c = c' ∧ p = p' := by
  cases c <;> cases c' <;> cases p <;> cases p' <;>
    simp_all [ending, segment, compressMark_eq, principalMark_eq]

/-- A text with a clear end has swallowed no segment. -/
theorem ending_of_clearEnd {x y : Text} {c : Bool} {p : Option Text} (hx : ClearEnd x) (h : x = y ++ ending c p)
    (hp : ∀ q, p = some q → q ≠ [] ∧ q ≠ localPrincipal) : x = y ∧ c = false ∧ p = none := by
  cases p with
  | some q =>
    refine absurd ?_ (hx.2 q (hp q rfl).1 (hp q rfl).2)
    exact ⟨y ++ (if c then compressMark else []), by simp [h, ending, segment]⟩
  | none =>
    cases c with
    | true => exact absurd ⟨y, by simp [h, ending, segment]⟩ hx.1
    | false => exact ⟨by simpa [ending, segment] using h, rfl, rfl⟩

/-- The first letters tell whether there is a `stdin` segment. -/
theorem Tail.stdin_isSome (t : Tail) : t.stdin.isSome = decide (t.write.take 2 = [124, 115]) := by
  obtain ⟨stdin, cwd, fmt, c, p⟩ := t
  cases stdin with
  | some stdin => simp [write, segment, stdinMark_eq]
  | none =>
    cases cwd <;> cases fmt <;> cases c <;> cases p <;>
      simp [write, segment, ending, cwdMark_eq, fmtMark_eq, compressMark_eq, principalMark_eq]

theorem Tail.cwd_isSome {t : Tail} (h : t.stdin = none) :
    t.cwd.isSome = decide (t.write.take 3 = [124, 99, 119]) := by
  obtain ⟨stdin, cwd, fmt, c, p⟩ := t
  obtain rfl : stdin = none := h
  cases cwd <;> cases fmt <;> cases c <;> cases p <;>
    simp [write, segment, ending, cwdMark_eq, fmtMark_eq, compressMark_eq, principalMark_eq]

theorem both_of_isSome_eq {α : Type*} {a b : Option α} (h : a.isSome = b.isSome) :
    (a = none ∧ b = none) ∨ ∃ x y, a = some x ∧ b = some y := by
  cases a <;> cases b <;> simp_all

/-- **Unambiguous segments can be read back.** -/
theorem Tail.eq_of_write {t t' : Tail} (hu : t.Unambiguous) (hv : t'.Valid) (hf : t.fmt.isSome = t'.fmt.isSome)
    (h : t.write = t'.write) : t = t' := by
  have hstdin : t.stdin.isSome = t'.stdin.isSome := by rw [stdin_isSome, stdin_isSome, h]
  have hcwd : t.stdin = none → t'.stdin = none → t.cwd.isSome = t'.cwd.isSome := by
    intro hs hs'
    rw [cwd_isSome hs, cwd_isSome hs', h]
  obtain ⟨stdin, cwd, fmt, c, p⟩ := t
  obtain ⟨stdin', cwd', fmt', c', p'⟩ := t'
  simp only at hstdin hcwd hf
  rcases both_of_isSome_eq hstdin with ⟨rfl, rfl⟩ | ⟨s, s', rfl, rfl⟩
  · rcases both_of_isSome_eq (hcwd rfl rfl) with ⟨rfl, rfl⟩ | ⟨w, w', rfl, rfl⟩
    · rcases both_of_isSome_eq hf with ⟨rfl, rfl⟩ | ⟨f, f', rfl, rfl⟩
      · obtain ⟨rfl, rfl⟩ := ending_inj h
        rfl
      · obtain ⟨rfl, rfl, hclear⟩ := hu
        simp only [write, segment, List.nil_append, List.append_assoc, ending_none, List.append_nil] at h
        obtain ⟨rfl, rfl, rfl⟩ := ending_of_clearEnd hclear (List.append_cancel_left h) hv
        rfl
    · rcases both_of_isSome_eq hf with ⟨rfl, rfl⟩ | ⟨f, f', rfl, rfl⟩
      · obtain ⟨rfl, rfl, hclear⟩ := hu
        simp only [write, segment, List.nil_append, List.append_assoc, ending_none, List.append_nil] at h
        obtain ⟨rfl, rfl, rfl⟩ := ending_of_clearEnd hclear (List.append_cancel_left h) hv
        rfl
      · obtain ⟨rfl, rfl, hw, hfm, hclear⟩ := hu
        simp only [write, segment, List.nil_append, List.append_assoc, ending_none, List.append_nil] at h
        obtain ⟨rfl, hend⟩ := split_fmt hw hfm (List.append_cancel_left h).symm
        obtain ⟨rfl, rfl, rfl⟩ := ending_of_clearEnd hclear hend.symm hv
        rfl
  · cases cwd with
    | some w => cases hu
    | none =>
      rcases both_of_isSome_eq hf with ⟨rfl, rfl⟩ | ⟨f, f', rfl, rfl⟩
      · obtain ⟨rfl, rfl, hno, hclear⟩ := hu
        simp only [write, segment, List.nil_append, List.append_assoc, ending_none, List.append_nil] at h
        have hrest := List.append_cancel_left h
        cases cwd' with
        | some w' => exact absurd ⟨s', w' ++ ending c' p', by simp [hrest]⟩ hno
        | none =>
          obtain ⟨rfl, rfl, rfl⟩ := ending_of_clearEnd hclear hrest hv
          rfl
      · obtain ⟨rfl, rfl, hno, hs, hfm, hclear⟩ := hu
        simp only [write, segment, List.nil_append, List.append_assoc, ending_none, List.append_nil] at h
        cases cwd' with
        | some w' =>
          have hrest : (s' ++ cwdMark ++ w') ++ (fmtMark ++ (f' ++ ending c' p')) = s ++ (fmtMark ++ f) := by
            rw [List.append_cancel_left h]
            simp only [List.append_assoc]
          obtain ⟨hsplit, -⟩ := split_fmt hs hfm hrest
          exact absurd ⟨s', w', hsplit⟩ hno
        | none =>
          obtain ⟨rfl, hend⟩ := split_fmt hs hfm (List.append_cancel_left h).symm
          obtain ⟨rfl, rfl, rfl⟩ := ending_of_clearEnd hclear hend.symm hv
          rfl

/-- Segments that can be read back, `x` being the last free text of them: nothing follows `x`, and it has a clear end. -/
theorem end_of_unique (pre : Text) (mk : Text → Tail) {x : Text} {c : Bool} {p : Option Text}
    (hw : ∀ x c p, ({ mk x with compress := c, principal := p } : Tail).write = pre ++ (x ++ ending c p))
    (hu : ∀ x' c' p', (∀ q, p' = some q → q ≠ [] ∧ q ≠ localPrincipal) →
      ({ mk x with compress := c, principal := p } : Tail).write = ({ mk x' with compress := c', principal := p' } : Tail).write →
        ({ mk x with compress := c, principal := p } : Tail) = { mk x' with compress := c', principal := p' }) :
    c = false ∧ p = none ∧ ClearEnd x := by
  have hnothing := hu (x ++ ending c p) false none (fun q hq => by cases hq) (by rw [hw, hw]; simp)
  obtain rfl : c = false := congrArg Tail.compress hnothing
  obtain rfl : p = none := congrArg Tail.principal hnothing
  refine ⟨rfl, rfl, ?_, ?_⟩
  · rintro ⟨a, rfl⟩
    have hcompress := hu a true none (fun q hq => by cases hq) (by rw [hw, hw]; simp [ending, segment])
    cases congrArg Tail.compress hcompress
  · rintro q hq hl ⟨a, rfl⟩
    have hprincipal := hu a false (some q) (fun q' hq' => by cases hq'; exact ⟨hq, hl⟩) (by rw [hw, hw]; simp [ending, segment])
    cases congrArg Tail.principal hprincipal

theorem append_mark_ne_left {a m b : Text} (hm : m ≠ []) : a ++ m ++ b ≠ a := by simp [hm]

theorem append_mark_ne_right {a m b : Text} (hm : m ≠ []) : a ++ m ++ b ≠ b := by
  rw [ne_eq, List.append_left_eq_self]
  simp [hm]

/-- **Segments that can be read back are unambiguous.** -/
theorem Tail.unambiguous_of_unique {t : Tail}
    (hu : ∀ t' : Tail, t'.Valid → t'.fmt.isSome = t.fmt.isSome → t.write = t'.write → t = t') : t.Unambiguous := by
  have hmark : fmtMark ≠ [] := by decide
  have hnone : ∀ {q}, (none : Option Text) = some q → q ≠ [] ∧ q ≠ localPrincipal := fun h => by cases h
  obtain ⟨stdin, cwd, fmt, c, p⟩ := t
  cases stdin with
  | none =>
    cases cwd with
    | none =>
      cases fmt with
      | none => trivial
      | some f =>
        refine end_of_unique fmtMark (fun x => ⟨none, none, some x, c, p⟩) (fun x c p => ?_) (fun x' c' p' hp h => hu _ hp rfl h)
        simp [write, segment]
    | some w =>
      cases fmt with
      | none =>
        refine end_of_unique cwdMark (fun x => ⟨none, some x, none, c, p⟩) (fun x c p => ?_) (fun x' c' p' hp h => hu _ hp rfl h)
        simp [write, segment]
      | some f =>
        obtain ⟨rfl, rfl, hclear⟩ := end_of_unique (cwdMark ++ (w ++ fmtMark))
          (fun x => ⟨none, some w, some x, c, p⟩) (fun x c p => by simp [write, segment]) (fun x' c' p' hp h => hu _ hp rfl h)
        refine ⟨rfl, rfl, ?_, ?_, hclear⟩
        · rintro ⟨a, b, rfl⟩
          have he := hu ⟨none, some a, some (b ++ (fmtMark ++ f)), false, none⟩ (fun _ => hnone) rfl
            (by simp [write, segment])
          injection he with _ hw
          exact append_mark_ne_left hmark (Option.some.inj hw)
        · rintro ⟨a, b, rfl⟩
          have he := hu ⟨none, some (w ++ (fmtMark ++ a)), some b, false, none⟩ (fun _ => hnone) rfl
            (by simp [write, segment])
          injection he with _ _ hf
          exact append_mark_ne_right hmark (Option.some.inj hf)
  | some s =>
    cases cwd with
    | some w =>
      -- the first free text can swallow the segment of the second one
      cases fmt with
      | none =>
        have he := hu ⟨some (s ++ (cwdMark ++ (w ++ ending c p))), none, none, false, none⟩ (fun _ => hnone) rfl
          (by simp [write, segment])
        injection he with _ hw
        cases hw
      | some f =>
        have he := hu ⟨some (s ++ (cwdMark ++ w)), none, some (f ++ ending c p), false, none⟩ (fun _ => hnone) rfl
          (by simp [write, segment])
        injection he with _ hw
        cases hw
    | none =>
      cases fmt with
      | none =>
        obtain ⟨rfl, rfl, hclear⟩ := end_of_unique (stdinMark)
          (fun x => ⟨some x, none, none, c, p⟩) (fun x c p => by simp [write, segment]) (fun x' c' p' hp h => hu _ hp rfl h)
        refine ⟨rfl, rfl, ?_, hclear⟩
        rintro ⟨a, b, rfl⟩
        have he := hu ⟨some a, some b, none, false, none⟩ (fun _ => hnone) rfl (by simp [write, segment])
        injection he with _ hw
        cases hw
      | some f =>
        obtain ⟨rfl, rfl, hclear⟩ := end_of_unique (stdinMark ++ (s ++ fmtMark))
          (fun x => ⟨some s, none, some x, c, p⟩) (fun x c p => by simp [write, segment]) (fun x' c' p' hp h => hu _ hp rfl h)
        refine ⟨rfl, rfl, ?_, ?_, ?_, hclear⟩
        · rintro ⟨a, b, rfl⟩
          have he := hu ⟨some a, some b, some f, false, none⟩ (fun _ => hnone) rfl (by simp [write, segment])
          injection he with _ hw
          cases hw
        · rintro ⟨a, b, rfl⟩
          have he := hu ⟨some a, none, some (b ++ (fmtMark ++ f)), false, none⟩ (fun _ => hnone) rfl
            (by simp [write, segment])
          injection he with hs
          exact append_mark_ne_left hmark (Option.some.inj hs)
        · rintro ⟨a, b, rfl⟩
          have he := hu ⟨some (s ++ (fmtMark ++ a)), none, some b, false, none⟩ (fun _ => hnone) rfl
            (by simp [write, segment])
          injection he with _ _ hf
          exact append_mark_ne_right hmark (Option.some.inj hf)

/-! ### Requests -/

theorem resolveOwnerPrincipal_ne_nil (ctx : Option GatewayRequestContext) : resolveOwnerPrincipal ctx ≠ [] := by
  have hlocal : localPrincipal ≠ [] := by decide
  unfold resolveOwnerPrincipal
  split
  · exact hlocal
  · split
    · exact List.cons_ne_nil _ _
    · split
      · decide
      · exact hlocal

theorem Request.tail_valid (r : Request) : r.tail.Valid := by
  intro p hp
  unfold tail at hp
  dsimp only at hp
  split at hp
  · cases hp
  · rename_i hne
    obtain rfl := Option.some.inj hp
    exact ⟨resolveOwnerPrincipal_ne_nil _, hne⟩

/-- The key material is the environment and the segments. -/
theorem Request.extra_eq (r : Request) : r.extra = canonicaliseEnvForKey r.env ++ r.tail.write := by
  unfold extra tail Tail.write ending
  cases r.stdin <;> cases r.cwd <;> by_cases hcli : r.cli = codex <;>
    by_cases hc : r.compressResponse = some true <;>
    by_cases hp : resolveOwnerPrincipal r.context = localPrincipal <;> simp [segment, hcli, hc, hp]

theorem Tail.head_write (t : Tail) : t.write = [] ∨ ∃ s, t.write = 124 :: s := by
  obtain ⟨stdin, cwd, fmt, c, p⟩ := t
  cases stdin <;> cases cwd <;> cases fmt <;> cases c <;> cases p <;>
    simp [write, segment, ending, stdinMark_eq, cwdMark_eq, fmtMark_eq, compressMark_eq, principalMark_eq]

/-- The environment can be told from the segments. -/
theorem env_append_inj {env env' : Option Env} {t t' : Tail}
    (h : canonicaliseEnvForKey env ++ t.write = canonicaliseEnvForKey env' ++ t'.write) :
    canonicaliseEnvForKey env = canonicaliseEnvForKey env' ∧ t.write = t'.write := by
  have hitem : SelfDelimiting (jsonArray quote) := selfDelimiting_jsonArray selfDelimiting_quote head_quote
  have harray : SelfDelimiting (jsonArray (jsonArray quote)) := selfDelimiting_jsonArray hitem head_jsonArray
  have hbar : ∀ (l : List (List Text)) (r : Text) (t : Tail), jsonArray (jsonArray quote) l ++ r ≠ t.write := by
    intro l r t he
    obtain ⟨v, hl⟩ := jsonArray_eq_cons (jsonArray quote) l
    rw [hl, List.cons_append] at he
    rcases t.head_write with hw | ⟨w, hw⟩
    · exact List.cons_ne_nil _ _ (he.trans hw)
    · have hc := (List.cons.inj (he.trans hw)).1
      exact absurd hc (by decide)
  unfold canonicaliseEnvForKey at h ⊢
  dsimp only at h ⊢
  split
  · rename_i hnil
    rw [if_pos hnil, List.nil_append] at h
    split
    · rename_i hnil'
      rw [if_pos hnil', List.nil_append] at h
      exact ⟨rfl, h⟩
    · rename_i hnil'
      rw [if_neg hnil'] at h
      exact absurd h.symm (hbar _ _ _)
  · rename_i hnil
    rw [if_neg hnil] at h
    split
    · rename_i hnil'
      rw [if_pos hnil', List.nil_append] at h
      exact absurd h (hbar _ _ _)
    · rename_i hnil'
      rw [if_neg hnil'] at h
      obtain ⟨he, hw⟩ := harray _ _ _ _ h
      exact ⟨by rw [he], hw⟩

theorem canonicaliseEnvForKey_eq_iff {env env' : Option Env} :
    canonicaliseEnvForKey env = canonicaliseEnvForKey env' ↔
      ∀ e, e ∈ definedEntries env ↔ e ∈ definedEntries env' := by
  rw [← sortEntries_eq_iff (definedEntries_nodup env) (definedEntries_nodup env')]
  have hitem : SelfDelimiting (jsonArray quote) := selfDelimiting_jsonArray selfDelimiting_quote head_quote
  have harray : SelfDelimiting (jsonArray (jsonArray quote)) := selfDelimiting_jsonArray hitem head_jsonArray
  have hpair : Function.Injective fun e : Text × Text => [e.1, e.2] := by
    rintro ⟨k, v⟩ ⟨k', v'⟩ he
    simpa using he
  have hempty : ∀ es : List (Text × Text), sortEntries es = [] ↔ es = [] := by
    intro es
    rw [sortEntries, ← List.length_eq_zero_iff, (List.mergeSort_perm es _).length_eq, List.length_eq_zero_iff]
  have hne : ∀ l : List (List Text), jsonArray (jsonArray quote) l ≠ [] := by
    intro l
    obtain ⟨c, t, hc, -⟩ := @head_jsonArray _ (jsonArray quote) l
    rw [hc]
    exact List.cons_ne_nil c t
  unfold canonicaliseEnvForKey
  dsimp only
  by_cases h : definedEntries env = []
  · by_cases h' : definedEntries env' = []
    · simp [h, h']
    · have hs : sortEntries (definedEntries env') ≠ [] := fun hc => h' ((hempty _).1 hc)
      simp [h, h', (hempty _).2 rfl, hs.symm, (hne _).symm]
  · by_cases h' : definedEntries env' = []
    · have hs : sortEntries (definedEntries env) ≠ [] := fun hc => h ((hempty _).1 hc)
      simp [h, h', (hempty _).2 rfl, hs, hne]
    · rw [if_neg (by simpa using h), if_neg (by simpa using h'), harray.injective.eq_iff,
        (List.map_injective_iff.2 hpair).eq_iff]

section identify
variable {Digest : Type*} {sha256 : Text → Digest}

/-- Equal keys: equal argument vectors and environments, and segments that write the same text. -/
theorem buildRequestKey_eq_iff (hsha : ∀ a b, WellFormed a → WellFormed b → sha256 a = sha256 b → a = b)
    (r r' : Request) : buildRequestKey sha256 r = buildRequestKey sha256 r' ↔
      r.cli = r'.cli ∧ r.args = r'.args ∧ (∀ e, e ∈ definedEntries r.env ↔ e ∈ definedEntries r'.env) ∧
        r.tail.write = r'.tail.write := by
  rw [← canonicaliseEnvForKey_eq_iff]
  constructor
  · intro h
    obtain ⟨hcli, hargs, hextra⟩ := payload_inj (hsha _ _ (wellFormed_payload _ _ _) (wellFormed_payload _ _ _) h)
    rw [r.extra_eq, r'.extra_eq] at hextra
    exact ⟨hcli, hargs, env_append_inj hextra⟩
  · rintro ⟨hcli, hargs, henv, htail⟩
    rw [buildRequestKey, buildRequestKey, hcli, hargs, r.extra_eq, r'.extra_eq, henv, htail]

theorem agree_iff (r r' : Request) : Agree r r' ↔ r.cli = r'.cli ∧ r.args = r'.args ∧
    (∀ e, e ∈ definedEntries r.env ↔ e ∈ definedEntries r'.env) ∧ r.tail = r'.tail := by
  constructor
  · intro h
    refine ⟨h.cli, h.args, h.env, ?_⟩
    have hfmt : (if r.cli = codex then some (r.outputFormat.getD (text "text")) else none) =
        if r'.cli = codex then some (r'.outputFormat.getD (text "text")) else none := by
      rw [← h.cli]
      split
      · rename_i hcli
        rw [h.outputFormat hcli]
      · rfl
    rw [Request.tail, Request.tail, h.stdin, h.cwd, hfmt, h.principal, decide_eq_decide.2 h.compress]
  · rintro ⟨hcli, hargs, henv, htail⟩
    simp only [Request.tail, Tail.mk.injEq, decide_eq_decide] at htail
    obtain ⟨hstdin, hcwd, hfmt, hcompress, hprincipal⟩ := htail
    refine ⟨hcli, hargs, henv, hstdin, hcwd, hcompress, ?_, fun hc => ?_⟩
    · by_cases h : resolveOwnerPrincipal r.context = localPrincipal
      · rw [if_pos h] at hprincipal
        by_cases h' : resolveOwnerPrincipal r'.context = localPrincipal
        · rw [h, h']
        · rw [if_neg h'] at hprincipal
          cases hprincipal
      · rw [if_neg h] at hprincipal
        split at hprincipal
        · cases hprincipal
        · exact Option.some.inj hprincipal
    · rw [if_pos hc, if_pos (hcli ▸ hc)] at hfmt
      exact Option.some.inj hfmt

/-- The request with other segments. -/
def Request.withTail (r : Request) (t : Tail) : Request where
  cli := r.cli
  args := r.args
  env := r.env
  stdin := t.stdin
  cwd := t.cwd
  outputFormat := t.fmt
  compressResponse := some t.compress
  context := t.principal.map fun p => ⟨none, some p⟩

theorem Request.tail_withTail {r : Request} {t : Tail} (ht : t.Valid) (hf : t.fmt.isSome = r.tail.fmt.isSome) :
    (r.withTail t).tail = t := by
  obtain ⟨stdin, cwd, fmt, c, p⟩ := t
  have hfmt : (if r.cli = codex then some (fmt.getD (text "text")) else none) = fmt := by
    simp only [tail] at hf
    split
    · rename_i hcli
      rw [if_pos hcli] at hf
      cases fmt with
      | none => cases hf
      | some f => rfl
    · rename_i hcli
      rw [if_neg hcli] at hf
      cases fmt with
      | none => rfl
      | some f => cases hf
  have hprincipal : (if resolveOwnerPrincipal (p.map fun p => ⟨none, some p⟩) = localPrincipal then none
      else some (resolveOwnerPrincipal (p.map fun p => ⟨none, some p⟩))) = p := by
    cases p with
    | none => rfl
    | some q =>
      obtain ⟨hq, hl⟩ := ht q rfl
      cases q with
      | nil => exact absurd rfl hq
      | cons u q => exact if_neg hl
  simp only [tail, withTail, Tail.mk.injEq]
  exact ⟨trivial, trivial, hfmt, by simp, hprincipal⟩

/-- The key identifies the request, and a job that is reused was started for the same request. -/
structure Identifies (sha256 : Text → Digest) (r : Request) : Prop where
  key : ∀ r', buildRequestKey sha256 r = buildRequestKey sha256 r' ↔ Agree r r'
  /-- the rows that the lookup finds have the key they were looked up with, the one of their own request -/
  reuse : ∀ findByRequestKey : Digest → Option (DedupJob Digest),
    (∀ k job, findByRequestKey k = some job → job.requestKey = k ∧ k = buildRequestKey sha256 job.request) →
    ∀ job, tryReuseDedupedJob sha256 findByRequestKey r = some job → Agree r job.request

/-- **The requests whose key identifies them** are those whose segments are unambiguous. -/
theorem identifies_iff (hsha : ∀ a b, WellFormed a → WellFormed b → sha256 a = sha256 b → a = b) (r : Request) :
    Identifies sha256 r ↔ r.tail.Unambiguous := by
  constructor
  · intro h
    refine Tail.unambiguous_of_unique fun t' hv hf hw => ?_
    have htail := Request.tail_withTail (r := r) hv hf
    have hkey : buildRequestKey sha256 r = buildRequestKey sha256 (r.withTail t') := by
      rw [buildRequestKey_eq_iff hsha, htail]
      exact ⟨rfl, rfl, fun _ => Iff.rfl, hw⟩
    have hagree := (agree_iff _ _).1 ((h.key _).1 hkey)
    exact hagree.2.2.2.trans htail
  · intro hu
    have hkey : ∀ r', buildRequestKey sha256 r = buildRequestKey sha256 r' ↔ Agree r r' := by
      intro r'
      rw [buildRequestKey_eq_iff hsha, agree_iff]
      constructor
      · rintro ⟨hcli, hargs, henv, hw⟩
        refine ⟨hcli, hargs, henv, Tail.eq_of_write hu r'.tail_valid ?_ hw⟩
        simp only [Request.tail, hcli]
        split <;> rfl
      · rintro ⟨hcli, hargs, henv, htail⟩
        exact ⟨hcli, hargs, henv, by rw [htail]⟩
    refine ⟨hkey, fun find hfind job hjob => (hkey _).1 ?_⟩
    unfold tryReuseDedupedJob at hjob
    split at hjob
    · cases hjob
    · rename_i job' hfound
      split at hjob
      · obtain rfl := Option.some.inj hjob
        exact (hfind _ _ hfound).2
      · cases hjob

end identify

/-- A local request of a provider, with a text on `stdin` and in a directory. -/
def Request.plain (cli : String) (stdin cwd : Option String) : Request where
  cli := text cli
  args := [text "-p"]
  env := none
  stdin := stdin.map text
  cwd := cwd.map text
  outputFormat := none
  compressResponse := none
  context := none

theorem identifies_plain : Identifies id (Request.plain "claude" (some "hello") none) := by
  refine (identifies_iff (fun _ _ _ _ h => h) _).2 ⟨rfl, rfl, by decide, by decide, fun p hp _ h => ?_⟩
  have hlen := h.length_le
  have hpos := List.length_pos_iff.2 hp
  have hmark : principalMark.length = 11 := by decide
  have htext : (text "hello").length = 5 := by decide
  rw [List.length_append, hmark, htext] at hlen
  omega

/-- A request whose `stdin` names a directory has the key of the request that runs in it. -/
theorem not_identifies : ¬∀ sha256 : Text → Text,
    (∀ a b, WellFormed a → WellFormed b → sha256 a = sha256 b → a = b) → ∀ r, Identifies sha256 r := by
  intro h
  have hid := h id (fun _ _ _ _ h => h) (Request.plain "claude" (some "hello|cwd:/tree") none)
  have hextra : (Request.plain "claude" (some "hello|cwd:/tree") none).extra =
      (Request.plain "claude" (some "hello") (some "/tree")).extra := by
    decide
  have hkey : buildRequestKey id (Request.plain "claude" (some "hello|cwd:/tree") none) =
      buildRequestKey id (Request.plain "claude" (some "hello") (some "/tree")) := by
    rw [buildRequestKey, buildRequestKey, hextra]
    rfl
  cases ((hid.key _).1 hkey).cwd

end LlmGateway.Manager.RequestKey
