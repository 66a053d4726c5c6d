import LlmGateway.Lib.JsValue

/-!
# Values up to the order of names

* `Same` — two values that are equal, but for the order of the names of their objects;
* `written` — a value as `JSON.stringify` writes it: a number that is not finite becomes `null`;
* `parse_stringify_written` — it is read back so, where the numbers can be (`ReadBack`).
-/

namespace LlmGateway.Lib.JsValue

open Utf16 JsonText JsNumber

/-! ## Induction -/

section

variable {p : JsValue → Prop} (null : p .null) (boolean : ∀ b, p (.boolean b)) (number : ∀ n, p (.number n))
  (string : ∀ s, p (.string s)) (array : ∀ vs, (∀ v ∈ vs, p v) → p (.array vs))
  (object : ∀ ms : Members, (∀ m ∈ ms, p m.2) → p (.object ms))

include null boolean number string array object

set_option linter.unusedSectionVars false in
mutual

/-- **Induction over the items and members of a value.** -/
@[elab_as_elim]
theorem induct : ∀ v, p v
  | .null => null
  | .boolean b => boolean b
  | .number n => number n
  | .string s => string s
  | .array vs => array vs (inductItems vs)
  | .object ms => object ms (inductMembers ms)

theorem inductItems : ∀ vs : List JsValue, ∀ v ∈ vs, p v
  | [], _, h => absurd h List.not_mem_nil
  | v :: vs, w, h => (List.mem_cons.1 h).elim (fun heq => heq ▸ induct v) (inductItems vs w)

theorem inductMembers : ∀ ms : Members, ∀ m ∈ ms, p m.2
  | [], _, h => absurd h List.not_mem_nil
  | (_, v) :: ms, m, h => (List.mem_cons.1 h).elim (fun heq => heq ▸ induct v) (inductMembers ms m)

end

end

/-! ## The order of names -/

/-- The least congruence by which the members of an object may be exchanged. -/
inductive Same : JsValue → JsValue → Prop where
  | refl (v : JsValue) : Same v v
  | symm {v w : JsValue} (h : Same v w) : Same w v
  | trans {u v w : JsValue} (h : Same u v) (h' : Same v w) : Same u w
  | item (front : List JsValue) {v w : JsValue} (back : List JsValue) (h : Same v w) :
      Same (.array (front ++ v :: back)) (.array (front ++ w :: back))
  | member (front : Members) (name : Text) {v w : JsValue} (back : Members) (h : Same v w) :
      Same (.object (front ++ (name, v) :: back)) (.object (front ++ (name, w) :: back))
  | perm {ms ns : Members} (h : ms.Perm ns) : Same (.object ms) (.object ns)

theorem Same.items {f : JsValue → JsValue} (front vs : List JsValue) (h : ∀ v ∈ vs, Same (f v) v) :
    Same (.array (front ++ vs.map f)) (.array (front ++ vs)) := by
  induction vs generalizing front with
  | nil => exact .refl _
  | cons v vs ih =>
    have hrest := ih (front ++ [v]) fun w hw => h w (List.mem_cons_of_mem v hw)
    rw [List.append_assoc, List.append_assoc, List.singleton_append, List.singleton_append] at hrest
    rw [List.map_cons]
    exact (Same.item front (vs.map f) (h v List.mem_cons_self)).trans hrest

theorem Same.members {f : JsValue → JsValue} (front ms : Members) (h : ∀ m ∈ ms, Same (f m.2) m.2) :
    Same (.object (front ++ ms.map fun m => (m.1, f m.2))) (.object (front ++ ms)) := by
  induction ms generalizing front with
  | nil => exact .refl _
  | cons m ms ih =>
    obtain ⟨k, v⟩ := m
    have hrest := ih (front ++ [(k, v)]) fun n hn => h n (List.mem_cons_of_mem _ hn)
    rw [List.append_assoc, List.append_assoc, List.singleton_append, List.singleton_append] at hrest
    rw [List.map_cons]
    exact (Same.member front k (ms.map fun m => (m.1, f m.2)) (h (k, v) List.mem_cons_self)).trans hrest

/-! ## Names -/

mutual

def Distinct : JsValue → Prop
  | .array vs => DistinctItems vs
  | .object ms => (ms.map Prod.fst).Nodup ∧ DistinctMembers ms
  | _ => True

def DistinctItems : List JsValue → Prop
  | [] => True
  | v :: vs => Distinct v ∧ DistinctItems vs

def DistinctMembers : Members → Prop
  | [] => True
  | (_, v) :: ms => Distinct v ∧ DistinctMembers ms

end

theorem distinctItems_iff {vs : List JsValue} : DistinctItems vs ↔ ∀ v ∈ vs, Distinct v := by
  induction vs with
  | nil => simp [DistinctItems]
  | cons v vs ih => simp [DistinctItems, ih]

theorem distinctMembers_iff {ms : Members} : DistinctMembers ms ↔ ∀ m ∈ ms, Distinct m.2 := by
  induction ms with
  | nil => simp [DistinctMembers]
  | cons m ms ih => simp [DistinctMembers, ih]

theorem distinct_array {vs : List JsValue} : Distinct (.array vs) ↔ ∀ v ∈ vs, Distinct v := by
  rw [Distinct, distinctItems_iff]

theorem distinct_object {ms : Members} : Distinct (.object ms) ↔ (ms.map Prod.fst).Nodup ∧ ∀ m ∈ ms, Distinct m.2 := by
  rw [Distinct, distinctMembers_iff]

theorem Same.distinct {v w : JsValue} (h : Same v w) : Distinct v ↔ Distinct w := by
  induction h with
  | refl v => exact Iff.rfl
  | symm h ih => exact ih.symm
  | trans h h' ih ih' => exact ih.trans ih'
  | item front back h ih => simp only [distinct_array, List.mem_append, List.mem_cons, or_imp, forall_and, forall_eq, ih]
  | member front name back h ih =>
    simp only [distinct_object, List.map_append, List.map_cons, List.mem_append, List.mem_cons, or_imp, forall_and, forall_eq, ih]
  | perm h =>
    rw [distinct_object, distinct_object, (h.map Prod.fst).nodup_iff]
    simp only [h.mem_iff]

/-! ## What is written -/

def writtenNumber : Number → JsValue
  | .finite q => .number (.finite q)
  | _ => .null

mutual

def written : JsValue → JsValue
  | .null => .null
  | .boolean b => .boolean b
  | .number n => writtenNumber n
  | .string s => .string s
  | .array vs => .array (writtenItems vs)
  | .object ms => .object (writtenMembers ms)

def writtenItems : List JsValue → List JsValue
  | [] => []
  | v :: vs => written v :: writtenItems vs

def writtenMembers : Members → Members
  | [] => []
  | (k, v) :: ms => (k, written v) :: writtenMembers ms

end

theorem writtenItems_eq (vs : List JsValue) : writtenItems vs = vs.map written := by
  induction vs with
  | nil => rfl
  | cons v vs ih => rw [writtenItems, ih, List.map_cons]

theorem writtenMembers_eq (ms : Members) : writtenMembers ms = ms.map fun m => (m.1, written m.2) := by
  induction ms with
  | nil => rfl
  | cons m ms ih => rw [writtenMembers, ih, List.map_cons]

variable {P : NumberText}

theorem trees_eq (vs : List JsValue) : trees P vs = vs.map (tree P) := by
  induction vs with
  | nil => rfl
  | cons v vs ih => rw [trees, ih, List.map_cons]

theorem memberTrees_eq (ms : Members) : memberTrees P ms = ms.map fun m => (quote m.1, tree P m.2) := by
  induction ms with
  | nil => rfl
  | cons m ms ih => rw [memberTrees, ih, List.map_cons]

theorem tree_written (v : JsValue) : tree P (written v) = tree P v := by
  induction v using induct with
  | null => rfl
  | boolean b => rfl
  | number n => cases n <;> rfl
  | string s => rfl
  | array vs ih =>
    rw [written, tree, tree, trees_eq, trees_eq, writtenItems_eq, List.map_map]
    exact congrArg Tree.array (List.map_congr_left ih)
  | object ms ih =>
    rw [written, tree, tree, memberTrees_eq, memberTrees_eq, writtenMembers_eq, List.map_map]
    exact congrArg Tree.object (List.map_congr_left fun m hm => congrArg (Prod.mk (quote m.1)) (ih m hm))

/-- The text of a number is a number of JSON, and is read as the number that it was written for. -/
def ReadBack (P : NumberText) (n : Number) : Prop := ∀ w, numberTree P n = .number w → IsNumber w ∧ readNumber w = n

theorem readBack_natCast {k : ℕ} (h : k ≤ safe) : ReadBack P (.finite k) := by
  intro w hw
  rw [numberTree_natCast h] at hw
  obtain rfl := Tree.number.inj hw
  exact ⟨isNumber_numeral k, readNumber_numeral h⟩

theorem legible_of_readBack {n : Number} (h : ReadBack P n) : Legible P n := by
  cases n with
  | finite q => exact legible_number rfl (h _ rfl).1
  | nan | infinite negative => exact fun r => .literal (w := text "null") (r := r) (by decide)

mutual

theorem ofTree_written : ∀ v, Distinct v → Numbers (ReadBack P) v → ofTree (tree P v) = written v
  | .null, _, _ => rfl
  | .boolean true, _, _ => rfl
  | .boolean false, _, _ => rfl
  | .number (.finite q), _, h => by
    have hread : readNumber _ = _ := (h _ rfl).2
    rw [tree, numberTree, ofTree, hread, written, writtenNumber]
  | .number .nan, _, _ => rfl
  | .number (.infinite _), _, _ => rfl
  | .string s, _, _ => by rw [tree, ofTree, stringValue_quote, written]
  | .array vs, h, hn => by rw [tree, ofTree, ofTrees_written vs h hn, written]
  | .object ms, h, hn => by
    rw [tree, ofTree, ofMembers_written [] ms h.2 hn h.1, written]
    rfl

theorem ofTrees_written : ∀ vs, DistinctItems vs → NumbersItems (ReadBack P) vs → ofTrees (trees P vs) = writtenItems vs
  | [], _, _ => rfl
  | v :: vs, h, hn => by rw [trees, ofTrees, ofTree_written v h.1 hn.1, ofTrees_written vs h.2 hn.2, writtenItems]

theorem ofMembers_written : ∀ front ms, DistinctMembers ms → NumbersMembers (ReadBack P) ms →
    ((front ++ ms).map Prod.fst).Nodup → ofMembers front (memberTrees P ms) = front ++ writtenMembers ms
  | front, [], _, _, _ => by rw [memberTrees, ofMembers, writtenMembers, List.append_nil]
  | front, (k, v) :: ms, h, hn, hnodup => by
    have hnew : k ∉ front.map Prod.fst := by
      rw [List.map_append, List.nodup_append] at hnodup
      intro hk
      exact hnodup.2.2 k hk k List.mem_cons_self rfl
    have hnames : (((front ++ [(k, written v)]) ++ ms).map Prod.fst).Nodup := by
      rw [List.append_assoc, List.singleton_append, List.map_append, List.map_cons]
      rwa [List.map_append, List.map_cons] at hnodup
    rw [memberTrees, ofMembers, stringValue_quote, ofTree_written v h.1 hn.1, put_of_new hnew,
      ofMembers_written _ ms h.2 hn.2 hnames, writtenMembers, List.append_assoc, List.singleton_append]

end

/-- **A value is read back as it is written.** -/
theorem parse_stringify_written {v : JsValue} (h : Distinct v) (hn : Numbers (ReadBack P) v) :
    parse (stringify P v) = some (written v) := by
  have hlegible := hn.imp (q := Legible P) (fun _ => legible_of_readBack) v
  rw [parse, readTree_stringify hlegible, Option.map_some, ofTree_written v h hn]

end LlmGateway.Lib.JsValue
