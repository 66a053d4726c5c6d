import LlmGateway.Compressor.Json
import LlmGateway.Lib.JsonText

/-!
# The minifier and the grammar of JSON

* `copyValue_eq` — `minifyJson` is the recursive descent of the grammar, with what it has read spelled without white space;
* `minifyJson_minified` — the minifier accepts the texts of the grammar and keeps their tokens.
-/

namespace LlmGateway.Compressor

open LlmGateway.Lib LlmGateway.Lib.Utf16
open JsonText (Tree Document spellItems spellMembers tokens readTree readValue readItems readMembers leaf)

/-! ### Tokens -/

theorem isHex_eq : isHex = JsonText.isHex := rfl

theorem simpleEscapes_eq : simpleEscapes = JsonText.simpleEscapes := rfl

theorem after_eq (front : Text) (r : Copied) : Copied.after front r = JsonText.Scanned.after front r := rfl

theorem copyChars_eq (s : Text) : copyChars s = JsonText.scanChars s := by
  fun_induction copyChars s <;> simp_all only [isHex_eq, simpleEscapes_eq, after_eq, JsonText.scanChars] <;> simp_all

theorem copyString_eq (s : Text) : copyString s = JsonText.scanString s := by
  unfold copyString JsonText.scanString
  split
  · rw [copyChars_eq]
    rfl
  · simp_all

theorem copyNumber_eq : copyNumber = JsonText.scanNumber := rfl

/-! ### Documents -/

theorem skipWs_eq (s : Text) : skipWs s = JsonText.skipWs s := rfl

/-- What has been read, spelled. -/
def spelled {α : Type*} (f : α → Text) (r : Option (α × Text)) : Copied := r.map fun r => (f r.1, r.2)

theorem spelled_leaf {c : Text → Tree} (h : ∀ w, JsonText.spell (c w) = w) (r : JsonText.Scanned) :
    spelled JsonText.spell (leaf c r) = r := by
  cases r with
  | none => rfl
  | some r => exact congrArg some (Prod.ext (h r.1) rfl)

theorem spelled_object (r : Option (List (Text × Tree) × Text)) :
    Copied.after [123] (spelled spellMembers r) = spelled JsonText.spell (r.map fun r => (.object r.1, r.2)) := by
  cases r <;> rfl

theorem spelled_array (r : Option (List Tree × Text)) :
    Copied.after [91] (spelled spellItems r) = spelled JsonText.spell (r.map fun r => (.array r.1, r.2)) := by
  cases r <;> rfl

theorem readItems_ne_nil {n : ℕ} {s r : Text} {ts : List Tree} (h : readItems n s = some (ts, r)) : ts ≠ [] :=
  ((JsonText.sound n).2.1 s ts r h).ne_nil

theorem readMembers_ne_nil {n : ℕ} {s r : Text} {ms : List (Text × Tree)} (h : readMembers n s = some (ms, r)) : ms ≠ [] :=
  ((JsonText.sound n).2.2 s ms r h).ne_nil

/-- **The minifier is the descent of the grammar.** -/
theorem copyValue_eq (n : ℕ) :
    (∀ s, copyValue n s = spelled JsonText.spell (readValue n s)) ∧ (∀ s, copyItems n s = spelled spellItems (readItems n s)) ∧
      ∀ s, copyMembers n s = spelled spellMembers (readMembers n s) := by
  induction n with
  | zero => exact ⟨fun _ => rfl, fun _ => rfl, fun _ => rfl⟩
  | succ n ih =>
    obtain ⟨ihvalue, ihitems, ihmembers⟩ := ih
    refine ⟨?_, ?_, ?_⟩
    · intro s
      rw [copyValue, readValue, skipWs_eq]
      generalize JsonText.skipWs s = x
      split
      · rfl
      · next s' =>
        simp only [skipWs_eq, ihmembers]
        generalize JsonText.skipWs s' = y
        split
        · rfl
        · simp only [spelled_object]
      · next s' =>
        simp only [skipWs_eq, ihitems]
        generalize JsonText.skipWs s' = y
        split
        · rfl
        · simp only [spelled_array]
      · next s' =>
        rw [copyString_eq]
        exact (spelled_leaf (c := .string) (fun w => List.flatten_singleton) _).symm
      · exact (spelled_leaf (c := .literal) (fun w => List.flatten_singleton) _).symm
      · exact (spelled_leaf (c := .literal) (fun w => List.flatten_singleton) _).symm
      · exact (spelled_leaf (c := .literal) (fun w => List.flatten_singleton) _).symm
      · next u s' _ _ _ _ _ _ =>
        simp only [copyNumber_eq]
        by_cases hu : u = 45 ∨ isDigit u = true
        · have hu' : u = 45 ∨ JsonText.isDigit u = true := hu
          rw [if_pos hu, if_pos hu']
          exact (spelled_leaf (c := .number) (fun w => List.flatten_singleton) _).symm
        · have hu' : ¬(u = 45 ∨ JsonText.isDigit u = true) := hu
          rw [if_neg hu, if_neg hu']
          rfl
    · intro s
      rw [copyItems, readItems, ihvalue]
      cases hvalue : readValue n s with
      | none => rfl
      | some value =>
        simp only [spelled, Option.map_some, Option.bind_eq_bind, Option.bind_some, skipWs_eq]
        generalize JsonText.skipWs value.2 = y
        split
        · next s' =>
          simp only [ihitems]
          cases hitems : readItems n s' with
          | none => rfl
          | some r =>
            have hcons := JsonText.spellItems_cons value.1 (readItems_ne_nil hitems) []
            simp only [List.append_nil] at hcons
            simp [spelled, Copied.after, hcons]
        · next s' => simp [JsonText.spellItems, JsonText.itemTokens, JsonText.spell]
        · simp_all
    · intro s
      rw [copyMembers, readMembers, copyString_eq, skipWs_eq]
      cases hkey : JsonText.scanString (JsonText.skipWs s) with
      | none => rfl
      | some key =>
        simp only [Option.bind_eq_bind, Option.bind_some, skipWs_eq]
        generalize JsonText.skipWs key.2 = x
        split
        · next s' =>
          simp only [ihvalue]
          cases hvalue : readValue n s' with
          | none => rfl
          | some value =>
            simp only [spelled, Option.map_some, Option.bind_some]
            generalize JsonText.skipWs value.2 = y
            split
            · next s'' =>
              simp only [ihmembers]
              cases hmembers : readMembers n s'' with
              | none => rfl
              | some r =>
                have hcons := JsonText.spellMembers_cons key.1 value.1 (readMembers_ne_nil hmembers) []
                simp only [List.append_nil] at hcons
                simp [spelled, Copied.after, hcons]
            · next s'' => simp [JsonText.spellMembers, JsonText.memberTokens, JsonText.memberToken, JsonText.spell]
            · simp_all
        · simp_all [spelled]

/-- **The minifier writes the document that it has read.** -/
theorem minifyJson_eq (s : Text) : minifyJson s = (readTree s).map JsonText.spell := by
  unfold minifyJson readTree
  rw [(copyValue_eq _).1]
  cases readValue (2 * s.length + 2) s with
  | none => rfl
  | some r =>
    simp only [spelled, Option.map_some]
    by_cases hrest : (skipWs r.2).isEmpty = true
    · have hrest' : (JsonText.skipWs r.2).isEmpty = true := hrest
      rw [if_pos hrest, if_pos hrest', Option.map_some]
    · have hrest' : ¬(JsonText.skipWs r.2).isEmpty = true := hrest
      rw [if_neg hrest, if_neg hrest', Option.map_none]

/-! ### What the minifier keeps -/

/-- `out` has the tokens of `s`, each as it is spelled there, and nothing else. -/
structure Minified (s out : Text) (t : Tree) : Prop where
  document : Document s t
  unique : ∀ t', Document s t' → t' = t
  spaced : ∃ rest, JsonText.Spaced (tokens t) s rest ∧ JsonText.Space rest []
  output : out = (tokens t).flatten
  same : Document out t
  stable : minifyJson out = some out
  length_le : out.length ≤ s.length

/-- **The minifier accepts the texts of the grammar and keeps their tokens.** -/
theorem minifyJson_minified (s : Text) :
    ((minifyJson s).isSome = true ↔ ∃ t, Document s t) ∧ ∀ out, minifyJson s = some out → ∃ t, Minified s out t := by
  constructor
  · rw [minifyJson_eq, Option.isSome_map, Option.isSome_iff_exists]
    exact exists_congr fun t => JsonText.readTree_iff
  · intro out h
    rw [minifyJson_eq] at h
    obtain ⟨t, hread, rfl⟩ := Option.map_eq_some_iff.1 h
    have hdocument := JsonText.readTree_iff.1 hread
    have hsame := JsonText.document_spell hdocument
    refine ⟨t, hdocument, fun t' ht' => JsonText.document_unique ht' hdocument, JsonText.spaced_document hdocument, rfl, hsame, ?_,
      JsonText.length_spell hdocument⟩
    rw [minifyJson_eq, JsonText.readTree_iff.2 hsame, Option.map_some]

end LlmGateway.Compressor
