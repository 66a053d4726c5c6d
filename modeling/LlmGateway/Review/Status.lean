import LlmGateway.Lib.Utf8
import LlmGateway.Lib.JsString

/-!
# The status of a working tree

`summarizeStatus` and what it calls (review-scope.ts).

* `decodeUtf8Exact`, `splitNul` — the parts of what Git prints;
* `Record` — a record of `git status --porcelain=v2 -z --untracked-files=all`; `render` — the bytes of a list of them;
* `summarizeStatus` — the flags and the count that are read from the bytes; `sha256` is a parameter.

A record of a renamed or copied file has two parts; the second is the name that the file had.
-/

namespace LlmGateway.Review.Plan

open Lib Lib.Utf16

def lit (s : String) : Text := Utf8.units s.toList

/-! ## Errors -/

inductive ReviewScopeErrorCode where
  | invalid_input
  | git_failed
  | git_output_too_large
  | base_not_found
  | head_not_found
  | default_branch_not_found
  | unsupported_git_path_encoding
deriving DecidableEq

structure ReviewScopeError where
  code : ReviewScopeErrorCode
  message : Text
  details : List (String × Text)
deriving DecidableEq

abbrev Checked := Except ReviewScopeError

def unsupportedEncoding (context : Text) : ReviewScopeError :=
  ⟨.unsupported_git_path_encoding, context ++ lit " is not valid UTF-8 and cannot be represented safely", []⟩

/-! ## Parts -/

def decodeUtf8Exact (value : List UInt8) (context : Text) : Checked Text :=
  let decoded := Utf8.decode value
  if Utf8.encode decoded = value then .ok decoded else .error (unsupportedEncoding context)

/-- The parts between NULs that are not empty. -/
def splitNul (value : List UInt8) (context : Text) : Checked (List Text) :=
  ((value.splitOn 0).filter fun part => !part.isEmpty).mapM fun part => decodeUtf8Exact part context

def trimAscii (value : List UInt8) : Text := trim (Utf8.decode value)

/-! ## The summary -/

structure ReviewWorkingTreeState where
  hasStagedChanges : Bool
  hasUnstagedChanges : Bool
  hasUntrackedChanges : Bool
  untrackedCount : ℕ
  statusSha256 : Text
deriving DecidableEq

/-- The variables of the loop. -/
structure Summary where
  hasStagedChanges : Bool
  hasUnstagedChanges : Bool
  untrackedCount : ℕ

/-- `record.split(" ", 3)[1] ?? ".."` -/
def secondField (record : Text) : Text := ((record.splitOn 32).take 3)[1]?.getD (lit "..")

def Summary.read (s : Summary) (record : Text) : Summary :=
  if (lit "? ").isPrefixOf record then { s with untrackedCount := s.untrackedCount + 1 }
  else if !(lit "1 ").isPrefixOf record && !(lit "2 ").isPrefixOf record && !(lit "u ").isPrefixOf record then s
  else
    let xy := secondField record
    { s with
      hasStagedChanges := s.hasStagedChanges || xy[0]?.any (· != 46)
      hasUnstagedChanges := s.hasUnstagedChanges || xy[1]?.any (· != 46) }

def summarizeStatus (sha256 : List UInt8 → Text) (value : List UInt8) : Checked ReviewWorkingTreeState := do
  let parts ← splitNul value (lit "Git status path")
  let s := parts.foldl Summary.read ⟨false, false, 0⟩
  return ⟨s.hasStagedChanges, s.hasUnstagedChanges, 0 < s.untrackedCount, s.untrackedCount, sha256 value⟩

def hasDirtyState (state : ReviewWorkingTreeState) : Bool :=
  state.hasStagedChanges || state.hasUnstagedChanges || state.hasUntrackedChanges

/-! ## Records -/

inductive Change where
  | unmodified
  | modified
  | typeChanged
  | added
  | deleted
  | renamed
  | copied
  | unmerged
deriving DecidableEq

def Change.letter : Change → UInt8
  | .unmodified => 46
  | .modified => 77
  | .typeChanged => 84
  | .added => 65
  | .deleted => 68
  | .renamed => 82
  | .copied => 67
  | .unmerged => 85

/-- What differs between the commit and the index, and between the index and the working tree.  A file in which nothing differs has
no record. -/
structure XY where
  index : Change
  worktree : Change
  changed : index ≠ .unmodified ∨ worktree ≠ .unmodified

/-- The modes, object names and scores between `XY` and the name. -/
structure Fields where
  bytes : List UInt8
  ascii : ∀ b ∈ bytes, 0 < b ∧ b < 0x80

structure FileName where
  bytes : List UInt8
  noNul : 0 ∉ bytes

inductive Record where
  | ordinary (xy : XY) (fields : Fields) (path : FileName)
  | renamed (xy : XY) (fields : Fields) (path origPath : FileName)
  | unmerged (xy : XY) (fields : Fields) (path : FileName)
  | untracked (path : FileName)

namespace Record

def xy : Record → Option XY
  | ordinary xy _ _ | renamed xy _ _ _ | unmerged xy _ _ => some xy
  | untracked _ => none

def names : Record → List FileName
  | ordinary _ _ path | unmerged _ _ path | untracked path => [path]
  | renamed _ _ path origPath => [path, origPath]

/-- The ASCII text before the first name. -/
def head (mark : UInt8) (xy : XY) (fields : Fields) : List UInt8 :=
  [mark, 32, xy.index.letter, xy.worktree.letter, 32] ++ fields.bytes ++ [32]

/-- What stands before a NUL. -/
def parts : Record → List (List UInt8)
  | ordinary xy fields path => [head 49 xy fields ++ path.bytes]
  | renamed xy fields path origPath => [head 50 xy fields ++ path.bytes, origPath.bytes]
  | unmerged xy fields path => [head 117 xy fields ++ path.bytes]
  | untracked path => [[63, 32] ++ path.bytes]

def staged (r : Record) : Bool := r.xy.any fun xy => xy.index ≠ .unmodified

def unstaged (r : Record) : Bool := r.xy.any fun xy => xy.worktree ≠ .unmodified

def isUntracked (r : Record) : Bool := r.xy.isNone

end Record

def render (records : List Record) : List UInt8 := records.flatMap fun r => r.parts.flatMap fun part => part ++ [0]

/-! ## The reading of records -/

def FileName.IsUtf8 (n : FileName) : Prop := Utf8.encode (Utf8.decode n.bytes) = n.bytes

instance (n : FileName) : Decidable n.IsUtf8 := inferInstanceAs (Decidable (_ = _))

/-- The texts with which the part of a record begins. -/
def marks : List (List UInt8) := [[49, 32], [50, 32], [117, 32], [63, 32]]

/-- The name that a renamed file had does not begin like a record. -/
def Record.Plain : Record → Prop
  | .renamed _ _ _ origPath => ∀ mark ∈ marks, ¬mark <+: origPath.bytes
  | _ => True

theorem splitOn_render {parts : List (List UInt8)} (h : ∀ part ∈ parts, 0 ∉ part) :
    (parts.flatMap fun part => part ++ [0]).splitOn 0 = parts ++ [[]] := by
  induction parts with
  | nil => rfl
  | cons part parts ih =>
    have hpart : ∀ b ∈ part, (b == (0 : UInt8)) = false := by
      intro b hb
      rw [beq_eq_false_iff_ne]
      rintro rfl
      exact h part List.mem_cons_self hb
    have hrest := ih fun q hq => h q (List.mem_cons_of_mem part hq)
    rw [List.flatMap_cons, List.append_assoc, List.singleton_append, List.splitOn,
      List.splitOnP_append_cons_of_forall_mem hpart 0 (beq_self_eq_true 0), ← List.splitOn, hrest, List.cons_append]

theorem mapM_decodeUtf8Exact {context : Text} {parts : List (List UInt8)} :
    (parts.mapM fun part => decodeUtf8Exact part context) =
      if ∀ part ∈ parts, Utf8.encode (Utf8.decode part) = part then .ok (parts.map Utf8.decode)
      else .error (unsupportedEncoding context) := by
  induction parts with
  | nil => rfl
  | cons part parts ih =>
    rw [List.mapM_cons, ih]
    simp only [decodeUtf8Exact, List.forall_mem_cons]
    by_cases hpart : Utf8.encode (Utf8.decode part) = part
    · by_cases hparts : ∀ q ∈ parts, Utf8.encode (Utf8.decode q) = q
      · rw [if_pos hpart, if_pos hparts, if_pos ⟨hpart, hparts⟩]
        rfl
      · have hboth : ¬(Utf8.encode (Utf8.decode part) = part ∧ ∀ q ∈ parts, Utf8.encode (Utf8.decode q) = q) :=
          fun h => hparts h.2
        rw [if_pos hpart, if_neg hparts, if_neg hboth]
        rfl
    · have hboth : ¬(Utf8.encode (Utf8.decode part) = part ∧ ∀ q ∈ parts, Utf8.encode (Utf8.decode q) = q) := fun h => hpart h.1
      rw [if_neg hpart, if_neg hboth]
      rfl

namespace Record

theorem head_ascii {mark : UInt8} (hmark : mark < 0x80) (xy : XY) (fields : Fields) : ∀ b ∈ head mark xy fields, b < 0x80 := by
  intro b hb
  have hletter (c : Change) : c.letter < 0x80 := by cases c <;> decide
  simp only [head, List.mem_append, List.mem_cons, List.not_mem_nil, or_false] at hb
  obtain ((rfl | rfl | rfl | rfl | rfl) | hb) | rfl := hb
  · exact hmark
  · decide
  · exact hletter _
  · exact hletter _
  · decide
  · exact (fields.ascii b hb).2
  · decide

theorem head_ne_zero {mark : UInt8} (hmark : mark ≠ 0) (xy : XY) (fields : Fields) : 0 ∉ head mark xy fields := by
  intro hb
  have hletter (c : Change) : c.letter ≠ 0 := by cases c <;> decide
  simp only [head, List.mem_append, List.mem_cons, List.not_mem_nil, or_false] at hb
  obtain ((h | h | h | h | h) | h) | h := hb
  · exact hmark h.symm
  · cases h
  · exact hletter _ h.symm
  · exact hletter _ h.symm
  · cases h
  · exact absurd (fields.ascii 0 h).1 (by decide)
  · cases h

theorem zero_notMem_parts (r : Record) : ∀ part ∈ r.parts, 0 ∉ part := by
  intro part hpart hzero
  have hmarked (mark : UInt8) (hmark : mark ≠ 0) (xy : XY) (fields : Fields) (n : FileName) :
      0 ∉ head mark xy fields ++ n.bytes := by
    rw [List.mem_append, not_or]
    exact ⟨head_ne_zero hmark xy fields, n.noNul⟩
  cases r with
  | ordinary xy fields path =>
    obtain rfl := List.mem_singleton.1 hpart
    exact hmarked 49 (by decide) xy fields path hzero
  | renamed xy fields path origPath =>
    rcases List.mem_pair.1 hpart with rfl | rfl
    · exact hmarked 50 (by decide) xy fields path hzero
    · exact origPath.noNul hzero
  | unmerged xy fields path =>
    obtain rfl := List.mem_singleton.1 hpart
    exact hmarked 117 (by decide) xy fields path hzero
  | untracked path =>
    obtain rfl := List.mem_singleton.1 hpart
    exact path.noNul (by simpa using hzero)

/-- The parts of a record can be decoded where its names can. -/
theorem parts_exact_iff (r : Record) :
    (∀ part ∈ r.parts, Utf8.encode (Utf8.decode part) = part) ↔ ∀ n ∈ r.names, n.IsUtf8 := by
  have hmarked (mark : UInt8) (hmark : mark < 0x80) (xy : XY) (fields : Fields) (n : FileName) :
      Utf8.encode (Utf8.decode (head mark xy fields ++ n.bytes)) = head mark xy fields ++ n.bytes ↔ n.IsUtf8 := by
    rw [Utf8.decode_ascii_append (head_ascii hmark xy fields), Utf8.encode_ascii_append (head_ascii hmark xy fields),
      List.append_cancel_left_eq]
    rfl
  cases r with
  | ordinary xy fields path => simp only [parts, names, List.mem_singleton, forall_eq, hmarked 49 (by decide)]
  | renamed xy fields path origPath =>
    simp only [parts, names, List.mem_pair, forall_eq_or_imp, forall_eq, hmarked 50 (by decide)]
    rfl
  | unmerged xy fields path => simp only [parts, names, List.mem_singleton, forall_eq, hmarked 117 (by decide)]
  | untracked path =>
    simp only [parts, names, List.mem_singleton, forall_eq]
    rw [Utf8.decode_ascii_append (by decide), Utf8.encode_ascii_append (by decide), List.append_cancel_left_eq]
    rfl

end Record

/-- What is read from the bytes of records. -/
theorem splitNul_render (records : List Record) (context : Text) :
    splitNul (render records) context =
      if ∀ r ∈ records, ∀ n ∈ r.names, n.IsUtf8 then
        .ok (((records.flatMap Record.parts).filter fun part => !part.isEmpty).map Utf8.decode)
      else .error (unsupportedEncoding context) := by
  have hrender : render records = (records.flatMap Record.parts).flatMap fun part => part ++ [0] := by
    rw [render, List.flatMap_assoc]
  have hnul : ∀ part ∈ records.flatMap Record.parts, 0 ∉ part := by
    intro part hpart
    obtain ⟨r, -, hr⟩ := List.mem_flatMap.1 hpart
    exact r.zero_notMem_parts part hr
  have hexact : (∀ part ∈ (records.flatMap Record.parts).filter fun part => !part.isEmpty,
      Utf8.encode (Utf8.decode part) = part) ↔ ∀ r ∈ records, ∀ n ∈ r.names, n.IsUtf8 := by
    simp only [← Record.parts_exact_iff, List.mem_filter, List.mem_flatMap]
    constructor
    · intro h r hr part hpart
      cases part with
      | nil => rfl
      | cons b part => exact h _ ⟨⟨r, hr, hpart⟩, rfl⟩
    · rintro h part ⟨⟨r, hr, hpart⟩, -⟩
      exact h r hr part hpart
  unfold splitNul
  rw [hrender, splitOn_render hnul, List.filter_append, List.filter_cons_of_neg (by simp), List.filter_nil, List.append_nil,
    mapM_decodeUtf8Exact]
  simp only [hexact]

/-! ## The summary of records -/

@[simp] theorem lit_untracked : lit "? " = [63, 32] := by decide

@[simp] theorem lit_ordinary : lit "1 " = [49, 32] := by decide

@[simp] theorem lit_renamed : lit "2 " = [50, 32] := by decide

@[simp] theorem lit_unmerged : lit "u " = [117, 32] := by decide

theorem Change.letter_ne (c : Change) : (c.letter.toUInt16 != 46) = decide (c ≠ .unmodified) := by
  cases c <;> decide

theorem Change.letter_ne_space (c : Change) : (c.letter.toUInt16 == 32) = false := by
  cases c <;> decide

theorem splitOn_space {l : Text} (hl : ∀ u ∈ l, (u == 32) = false) (t : Text) : (l ++ 32 :: t).splitOn 32 = l :: t.splitOn 32 :=
  List.splitOnP_append_cons_of_forall_mem hl 32 rfl t

theorem secondField_head {mark : UInt16} (hmark : (mark == 32) = false) (x y : Change) (t : Text) :
    secondField (mark :: 32 :: x.letter.toUInt16 :: y.letter.toUInt16 :: 32 :: t) = [x.letter.toUInt16, y.letter.toUInt16] := by
  have hfirst : (mark :: 32 :: x.letter.toUInt16 :: y.letter.toUInt16 :: 32 :: t).splitOn 32 =
      [mark] :: (x.letter.toUInt16 :: y.letter.toUInt16 :: 32 :: t).splitOn 32 :=
    splitOn_space (l := [mark]) (by simpa using hmark) _
  have hsecond : (x.letter.toUInt16 :: y.letter.toUInt16 :: 32 :: t).splitOn 32 =
      [x.letter.toUInt16, y.letter.toUInt16] :: t.splitOn 32 := by
    refine splitOn_space (l := [x.letter.toUInt16, y.letter.toUInt16]) ?_ t
    intro u hu
    rcases List.mem_pair.1 hu with rfl | rfl
    · exact x.letter_ne_space
    · exact y.letter_ne_space
  rw [secondField, hfirst, hsecond]
  rfl

namespace Summary

/-- The text has none of the four marks. -/
def Unmarked (t : Text) : Prop := ∀ mark ∈ marks, ¬mark.map UInt8.toUInt16 <+: t

theorem read_unmarked {t : Text} (h : Unmarked t) (s : Summary) : s.read t = s := by
  have hmark (mark : List UInt8) (hmem : mark ∈ marks) : (mark.map UInt8.toUInt16).isPrefixOf t = false := by
    rw [Bool.eq_false_iff, ne_eq, List.isPrefixOf_iff_prefix]
    exact h mark hmem
  have h₁ : List.isPrefixOf [63, 32] t = false := hmark [63, 32] (by decide)
  have h₂ : List.isPrefixOf [49, 32] t = false := hmark [49, 32] (by decide)
  have h₃ : List.isPrefixOf [50, 32] t = false := hmark [50, 32] (by decide)
  have h₄ : List.isPrefixOf [117, 32] t = false := hmark [117, 32] (by decide)
  simp [read, h₁, h₂, h₃, h₄]

theorem read_nil (s : Summary) : s.read [] = s := by
  refine read_unmarked ?_ s
  unfold Unmarked
  decide

theorem read_untracked (s : Summary) (t : Text) : s.read (63 :: 32 :: t) = { s with untrackedCount := s.untrackedCount + 1 } := by
  simp [read]

theorem read_changed {mark : UInt8} (hmark : mark ∈ [(49 : UInt8), 50, 117]) (s : Summary) (xy : XY) (fields : Fields) (t : Text) :
    s.read ((Record.head mark xy fields).map UInt8.toUInt16 ++ t) =
      ⟨s.hasStagedChanges || decide (xy.index ≠ .unmodified), s.hasUnstagedChanges || decide (xy.worktree ≠ .unmodified),
        s.untrackedCount⟩ := by
  obtain ⟨r, hr⟩ : ∃ r : Text, (Record.head mark xy fields).map UInt8.toUInt16 ++ t =
      mark.toUInt16 :: 32 :: xy.index.letter.toUInt16 :: xy.worktree.letter.toUInt16 :: 32 :: r :=
    ⟨(fields.bytes ++ [32]).map UInt8.toUInt16 ++ t, by simp [Record.head]⟩
  rw [hr]
  have hsecond : secondField (mark.toUInt16 :: 32 :: xy.index.letter.toUInt16 :: xy.worktree.letter.toUInt16 :: 32 :: r) =
      [xy.index.letter.toUInt16, xy.worktree.letter.toUInt16] := by
    refine secondField_head ?_ _ _ _
    simp only [List.mem_cons, List.not_mem_nil, or_false] at hmark
    obtain rfl | rfl | rfl := hmark <;> rfl
  have hread : s.read (mark.toUInt16 :: 32 :: xy.index.letter.toUInt16 :: xy.worktree.letter.toUInt16 :: 32 :: r) =
      { s with
        hasStagedChanges := s.hasStagedChanges || xy.index.letter.toUInt16 != 46
        hasUnstagedChanges := s.hasUnstagedChanges || xy.worktree.letter.toUInt16 != 46 } := by
    unfold read
    rw [hsecond]
    simp only [List.mem_cons, List.not_mem_nil, or_false] at hmark
    obtain rfl | rfl | rfl := hmark <;> simp
  rw [hread, Change.letter_ne, Change.letter_ne]

end Summary

/-- The loop over the parts of a record. -/
def Summary.readRecord (s : Summary) (r : Record) : Summary := (r.parts.map Utf8.decode).foldl Summary.read s

theorem Record.unmarked_of_plain {origPath : FileName} (hutf8 : origPath.IsUtf8) (hplain : ∀ mark ∈ marks, ¬mark <+: origPath.bytes) :
    Summary.Unmarked (Utf8.decode origPath.bytes) := by
  intro mark hmark hprefix
  obtain ⟨t, ht⟩ := hprefix
  have hascii : ∀ b ∈ mark, b < 0x80 := by
    simp only [marks, List.mem_cons, List.not_mem_nil, or_false] at hmark
    obtain rfl | rfl | rfl | rfl := hmark <;> decide
  refine hplain mark hmark ⟨Utf8.encode t, ?_⟩
  rw [← Utf8.encode_ascii_append hascii, ht]
  exact hutf8

/-- **One record**: the flags of its letters, and its count. -/
theorem Summary.readRecord_eq {r : Record} (hutf8 : ∀ n ∈ r.names, n.IsUtf8) (hplain : r.Plain) (s : Summary) :
    s.readRecord r = ⟨s.hasStagedChanges || r.staged, s.hasUnstagedChanges || r.unstaged, s.untrackedCount + r.isUntracked.toNat⟩ := by
  cases r with
  | ordinary xy fields path =>
    show s.read (Utf8.decode (Record.head 49 xy fields ++ path.bytes)) = _
    rw [Utf8.decode_ascii_append (Record.head_ascii (by decide) xy fields), read_changed (by decide)]
    rfl
  | renamed xy fields path origPath =>
    have hunmarked := Record.unmarked_of_plain (hutf8 origPath (by simp [Record.names])) hplain
    show (s.read (Utf8.decode (Record.head 50 xy fields ++ path.bytes))).read (Utf8.decode origPath.bytes) = _
    rw [read_unmarked hunmarked, Utf8.decode_ascii_append (Record.head_ascii (by decide) xy fields), read_changed (by decide)]
    rfl
  | unmerged xy fields path =>
    show s.read (Utf8.decode (Record.head 117 xy fields ++ path.bytes)) = _
    rw [Utf8.decode_ascii_append (Record.head_ascii (by decide) xy fields), read_changed (by decide)]
    rfl
  | untracked path =>
    show s.read (Utf8.decode ([63, 32] ++ path.bytes)) = _
    rw [Utf8.decode_ascii_append (by decide)]
    simpa [Record.staged, Record.unstaged, Record.isUntracked, Record.xy] using s.read_untracked (Utf8.decode path.bytes)

/-- The parts that are empty change nothing. -/
theorem foldl_read_filter (parts : List (List UInt8)) (s : Summary) :
    ((parts.filter fun part => !part.isEmpty).map Utf8.decode).foldl Summary.read s = (parts.map Utf8.decode).foldl Summary.read s := by
  induction parts generalizing s with
  | nil => rfl
  | cons part parts ih =>
    cases part with
    | nil =>
      have hempty : s.read (Utf8.decode []) = s := s.read_nil
      rw [List.filter_cons_of_neg (by simp), List.map_cons, List.foldl_cons, hempty]
      exact ih s
    | cons b part =>
      rw [List.filter_cons_of_pos (by simp), List.map_cons, List.map_cons, List.foldl_cons, List.foldl_cons]
      exact ih _

theorem foldl_read_parts (records : List Record) (s : Summary) :
    (((records.flatMap Record.parts).filter fun part => !part.isEmpty).map Utf8.decode).foldl Summary.read s =
      records.foldl Summary.readRecord s := by
  rw [foldl_read_filter]
  induction records generalizing s with
  | nil => rfl
  | cons r records ih =>
    rw [List.flatMap_cons, List.map_append, List.foldl_append, List.foldl_cons]
    exact ih _

theorem foldl_readRecord {records : List Record} (hutf8 : ∀ r ∈ records, ∀ n ∈ r.names, n.IsUtf8) (hplain : ∀ r ∈ records, r.Plain)
    (s : Summary) : records.foldl Summary.readRecord s =
      ⟨s.hasStagedChanges || records.any Record.staged, s.hasUnstagedChanges || records.any Record.unstaged,
        s.untrackedCount + records.countP Record.isUntracked⟩ := by
  induction records generalizing s with
  | nil => simp
  | cons r records ih =>
    have hr := Summary.readRecord_eq (hutf8 r List.mem_cons_self) (hplain r List.mem_cons_self) s
    rw [List.foldl_cons, hr, ih (fun q hq => hutf8 q (List.mem_cons_of_mem r hq)) fun q hq => hplain q (List.mem_cons_of_mem r hq)]
    simp only [List.any_cons, Bool.or_assoc, List.countP_cons, Summary.mk.injEq, true_and]
    cases r.isUntracked
    · simp
    · simp only [Bool.toNat_true, if_pos]
      omega

namespace Summary

/-- Something has been read. -/
def Dirty (s : Summary) : Prop := s.hasStagedChanges = true ∨ s.hasUnstagedChanges = true ∨ 0 < s.untrackedCount

theorem Dirty.read {s : Summary} (h : s.Dirty) (t : Text) : (s.read t).Dirty := by
  unfold Summary.read
  split_ifs
  · exact .inr (.inr (Nat.succ_pos _))
  · exact h
  · obtain h | h | h := h
    · exact .inl (by simp [h])
    · exact .inr (.inl (by simp [h]))
    · exact .inr (.inr h)

theorem Dirty.foldl {s : Summary} (h : s.Dirty) (ts : List Text) : (ts.foldl Summary.read s).Dirty := by
  induction ts generalizing s with
  | nil => exact h
  | cons t ts ih => exact ih (h.read t)

theorem dirty_readRecord (s : Summary) (r : Record) : (s.readRecord r).Dirty := by
  have hchanged (mark : UInt8) (hmark : mark ∈ [(49 : UInt8), 50, 117]) (hascii : mark < 0x80) (xy : XY) (fields : Fields)
      (path : FileName) : (s.read (Utf8.decode (Record.head mark xy fields ++ path.bytes))).Dirty := by
    rw [Utf8.decode_ascii_append (Record.head_ascii hascii xy fields), read_changed hmark]
    rcases xy.changed with h | h
    · exact .inl (by simp [h])
    · exact .inr (.inl (by simp [h]))
  cases r with
  | ordinary xy fields path => exact hchanged 49 (by decide) (by decide) xy fields path
  | renamed xy fields path origPath => exact (hchanged 50 (by decide) (by decide) xy fields path).read _
  | unmerged xy fields path => exact hchanged 117 (by decide) (by decide) xy fields path
  | untracked path =>
    show (s.read (Utf8.decode ([63, 32] ++ path.bytes))).Dirty
    rw [Utf8.decode_ascii_append (by decide)]
    exact .inr (.inr (by simp [Summary.read]))

theorem Dirty.foldl_readRecord {s : Summary} (h : s.Dirty) (records : List Record) : (records.foldl readRecord s).Dirty := by
  induction records generalizing s with
  | nil => exact h
  | cons r records ih => exact ih (h.foldl _)

end Summary

variable {sha256 : List UInt8 → Text} {records : List Record}

theorem summarizeStatus_render :
    summarizeStatus sha256 (render records) =
      if ∀ r ∈ records, ∀ n ∈ r.names, n.IsUtf8 then
        let s := records.foldl Summary.readRecord ⟨false, false, 0⟩
        .ok ⟨s.hasStagedChanges, s.hasUnstagedChanges, 0 < s.untrackedCount, s.untrackedCount, sha256 (render records)⟩
      else .error (unsupportedEncoding (lit "Git status path")) := by
  unfold summarizeStatus
  rw [splitNul_render]
  by_cases hutf8 : ∀ r ∈ records, ∀ n ∈ r.names, n.IsUtf8
  · rw [if_pos hutf8, if_pos hutf8, ← foldl_read_parts]
    rfl
  · rw [if_neg hutf8, if_neg hutf8]
    rfl

/-- **The flags and the count are exact.** -/
theorem summarizeStatus_of_plain (hutf8 : ∀ r ∈ records, ∀ n ∈ r.names, n.IsUtf8) (hplain : ∀ r ∈ records, r.Plain) :
    summarizeStatus sha256 (render records) =
      .ok ⟨records.any Record.staged, records.any Record.unstaged, records.any Record.isUntracked,
        records.countP Record.isUntracked, sha256 (render records)⟩ := by
  rw [summarizeStatus_render, if_pos hutf8, foldl_readRecord hutf8 hplain]
  have hany : decide (0 < records.countP Record.isUntracked) = records.any Record.isUntracked := by
    rw [Bool.eq_iff_iff, decide_eq_true_eq, List.countP_pos_iff, List.any_eq_true]
  simp only [Bool.false_or, Nat.zero_add, hany]

/-- A working tree with a record is dirty. -/
theorem hasDirtyState_of_ne_nil {state : ReviewWorkingTreeState} (h : summarizeStatus sha256 (render records) = .ok state)
    (hne : records ≠ []) : hasDirtyState state = true := by
  rw [summarizeStatus_render] at h
  split_ifs at h with hutf8
  obtain ⟨r, rest, rfl⟩ := List.exists_cons_of_ne_nil hne
  have hdirty := (Summary.dirty_readRecord ⟨false, false, 0⟩ r).foldl_readRecord rest
  obtain rfl := Except.ok.inj h
  rw [hasDirtyState, List.foldl_cons]
  obtain hstaged | hunstaged | hcount := hdirty
  · simp [hstaged]
  · simp [hunstaged]
  · simp [hcount]

end LlmGateway.Review.Plan
