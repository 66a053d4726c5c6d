import LlmGateway.Lib.JsOrder
import LlmGateway.Lib.StableSort

/-!
# Canonical JSON

`canonicalJson` (validation-receipt.ts), for every value that `JSON.parse` can give.

* `setProperty` — `out[key] = value`, by which `__proto__` is not set as a property;
* `Clean` — no object has the name `__proto__`, and all numbers are finite;
* `Identified` — the text tells values apart, up to the order of names.
-/

namespace LlmGateway.Validation.Canonical

open Lib Utf16 JsNumber JsonText JsValue

/-! ## Objects -/

def proto : Text := text "__proto__"

/-- `out[key] = value` for an object that `{}` has made: `__proto__` is an accessor of its prototype. -/
def setProperty (out : Members) (m : Text × JsValue) : Members := if m.1 = proto then out else put out m

/-- The index that a name is, if it is one. -/
def arrayIndex (name : Text) : Option ℕ :=
  let n := digitsValue name
  if name = numeral n ∧ n < 2 ^ 32 - 1 then some n else none

/-- The order of the properties of an object. -/
def ownOrder (ms : Members) : Members :=
  (ms.filter fun m => (arrayIndex m.1).isSome).mergeSort
    (fun a b => decide ((arrayIndex a.1).getD 0 ≤ (arrayIndex b.1).getD 0)) ++
    ms.filter fun m => (arrayIndex m.1).isNone

/-- `Object.keys(value).sort()`, with the values. -/
def sortNames (ms : Members) : Members := ms.mergeSort fun a b => decide (a.1 ≤ b.1)

def rebuild (ms : Members) : Members := ownOrder ((sortNames ms).foldl setProperty [])

/-! ## Values -/

mutual

def sortDeep : JsValue → JsValue
  | .array vs => .array (sortItems vs)
  | .object ms => .object (rebuild (sortMembers ms))
  | .null => .null
  | .boolean b => .boolean b
  | .number n => .number n
  | .string s => .string s

def sortItems : List JsValue → List JsValue
  | [] => []
  | v :: vs => sortDeep v :: sortItems vs

def sortMembers : Members → Members
  | [] => []
  | (k, v) :: ms => (k, sortDeep v) :: sortMembers ms

end

def canonicalJson (P : NumberText) (value : JsValue) : Text := stringify P (sortDeep value)

theorem sortItems_eq (vs : List JsValue) : sortItems vs = vs.map sortDeep := by
  induction vs with
  | nil => rfl
  | cons v vs ih => rw [sortItems, ih, List.map_cons]

theorem sortMembers_eq (ms : Members) : sortMembers ms = ms.map fun m => (m.1, sortDeep m.2) := by
  induction ms with
  | nil => rfl
  | cons m ms ih => rw [sortMembers, ih, List.map_cons]

theorem map_fst_sortMembers (ms : Members) : (sortMembers ms).map Prod.fst = ms.map Prod.fst := by
  rw [sortMembers_eq, List.map_map]
  rfl

/-! ## The members of a rebuilt object -/

/-- The members that are set. -/
def kept (ms : Members) : Members := ms.filter fun m => m.1 ≠ proto

theorem foldl_setProperty {front ms : Members} (h : ((front ++ ms).map Prod.fst).Nodup) :
    ms.foldl setProperty front = front ++ kept ms := by
  induction ms generalizing front with
  | nil => exact (List.append_nil front).symm
  | cons m ms ih =>
    rw [List.foldl_cons, setProperty]
    split_ifs with hproto
    · have hrest : ((front ++ ms).map Prod.fst).Nodup := by
        refine h.sublist ?_
        exact ((List.sublist_cons_self m ms).append_left front).map Prod.fst
      rw [ih hrest, kept, kept, List.filter_cons_of_neg (by simpa using hproto)]
    · have hnew : m.1 ∉ front.map Prod.fst := by
        rw [List.map_append, List.nodup_append] at h
        intro hm
        exact h.2.2 m.1 hm m.1 List.mem_cons_self rfl
      rw [put_of_new hnew, ih (by rwa [List.append_assoc, List.singleton_append]), kept, kept,
        List.filter_cons_of_pos (by simpa using hproto), List.append_assoc, List.singleton_append]

theorem ownOrder_perm (ms : Members) : (ownOrder ms).Perm ms := by
  unfold ownOrder
  have hnone (m : Text × JsValue) : (arrayIndex m.1).isNone = !(arrayIndex m.1).isSome := by
    cases arrayIndex m.1 <;> rfl
  simp only [hnone]
  exact ((List.mergeSort_perm _ _).append_right _).trans (List.filter_append_perm _ ms)

theorem sortNames_perm (ms : Members) : (sortNames ms).Perm ms := List.mergeSort_perm _ _

theorem rebuild_eq {ms : Members} (h : (ms.map Prod.fst).Nodup) : rebuild ms = ownOrder (kept (sortNames ms)) := by
  have hnodup : (([] ++ sortNames ms).map Prod.fst).Nodup := (((sortNames_perm ms).map Prod.fst).nodup_iff).2 h
  rw [rebuild, foldl_setProperty hnodup, List.nil_append]

theorem rebuild_perm {ms : Members} (h : (ms.map Prod.fst).Nodup) : (rebuild ms).Perm (kept ms) := by
  rw [rebuild_eq h]
  exact (ownOrder_perm _).trans ((sortNames_perm ms).filter _)

/-- **The order of the members of an object is lost.** -/
theorem rebuild_congr {ms ns : Members} (hperm : ms.Perm ns) (h : (ms.map Prod.fst).Nodup) : rebuild ms = rebuild ns := by
  have hnames : sortNames ms = sortNames ns := by
    unfold sortNames
    refine mergeSort_perm_eq (fun a b c hab hbc => ?_) (fun a b => ?_) hperm fun a ha b hb hab hba => ?_
    · exact decide_eq_true (List.le_trans (of_decide_eq_true hab) (of_decide_eq_true hbc))
    · rcases List.le_total a.1 b.1 with hle | hle <;> simp [hle]
    · have hfst := List.le_antisymm (of_decide_eq_true hab) (of_decide_eq_true hba)
      exact List.inj_on_of_nodup_map h ha hb hfst
  rw [rebuild, rebuild, hnames]

/-! ## Clean values -/

mutual

def Clean : JsValue → Prop
  | .number n => ∃ q, n = .finite q
  | .array vs => CleanItems vs
  | .object ms => CleanMembers ms
  | _ => True

def CleanItems : List JsValue → Prop
  | [] => True
  | v :: vs => Clean v ∧ CleanItems vs

def CleanMembers : Members → Prop
  | [] => True
  | (k, v) :: ms => (k ≠ proto ∧ Clean v) ∧ CleanMembers ms

end

theorem clean_array {vs : List JsValue} : Clean (.array vs) ↔ ∀ v ∈ vs, Clean v := by
  rw [Clean]
  induction vs with
  | nil => simp [CleanItems]
  | cons v vs ih => simp [CleanItems, ih]

theorem clean_object {ms : Members} : Clean (.object ms) ↔ ∀ m ∈ ms, m.1 ≠ proto ∧ Clean m.2 := by
  rw [Clean]
  induction ms with
  | nil => simp [CleanMembers]
  | cons m ms ih => simp [CleanMembers, ih]

theorem clean_of_same {v w : JsValue} (h : Same v w) : Clean v ↔ Clean w := by
  induction h with
  | refl v => exact Iff.rfl
  | symm h ih => exact ih.symm
  | trans h h' ih ih' => exact ih.trans ih'
  | item front back h ih => simp only [clean_array, List.mem_append, List.mem_cons, or_imp, forall_and, forall_eq, ih]
  | member front name back h ih => simp only [clean_object, List.mem_append, List.mem_cons, or_imp, forall_and, forall_eq, ih]
  | perm h => simp only [clean_object, h.mem_iff]

theorem written_of_clean {v : JsValue} (h : Clean v) : written v = v := by
  induction v using induct with
  | null => rfl
  | boolean b => rfl
  | number n =>
    obtain ⟨q, rfl⟩ := h
    rfl
  | string s => rfl
  | array vs ih =>
    have hitems : vs.map written = vs.map id := List.map_congr_left fun v hv => ih v hv (clean_array.1 h v hv)
    rw [written, writtenItems_eq, hitems, List.map_id]
  | object ms ih =>
    have hmembers : (ms.map fun m => (m.1, written m.2)) = ms.map id :=
      List.map_congr_left fun m hm => Prod.ext rfl (ih m hm (clean_object.1 h m hm).2)
    rw [written, writtenMembers_eq, hmembers, List.map_id]

/-! ## Sorted values -/

/-- The members of a rebuilt object are those of the object, sorted. -/
theorem mem_rebuild {ms : Members} (h : (ms.map Prod.fst).Nodup) {m : Text × JsValue} (hm : m ∈ rebuild (sortMembers ms)) :
    m.1 ≠ proto ∧ ∃ v, (m.1, v) ∈ ms ∧ m.2 = sortDeep v := by
  have hkept := (rebuild_perm (by rwa [map_fst_sortMembers])).mem_iff.1 hm
  rw [kept, List.mem_filter, sortMembers_eq, List.mem_map] at hkept
  obtain ⟨⟨n, hn, rfl⟩, hproto⟩ := hkept
  exact ⟨of_decide_eq_true hproto, n.2, hn, rfl⟩

theorem distinct_sortDeep {v : JsValue} (h : Distinct v) : Distinct (sortDeep v) := by
  induction v using induct with
  | null => trivial
  | boolean b => trivial
  | number n => trivial
  | string s => trivial
  | array vs ih =>
    rw [distinct_array] at h
    rw [sortDeep, sortItems_eq, distinct_array]
    intro w hw
    obtain ⟨v, hv, rfl⟩ := List.mem_map.1 hw
    exact ih v hv (h v hv)
  | object ms ih =>
    rw [distinct_object] at h
    rw [sortDeep, distinct_object]
    refine ⟨?_, fun m hm => ?_⟩
    · have hnodup : ((sortMembers ms).map Prod.fst).Nodup := by
        rw [map_fst_sortMembers]
        exact h.1
      rw [((rebuild_perm hnodup).map Prod.fst).nodup_iff]
      exact hnodup.sublist (List.filter_sublist.map Prod.fst)
    · obtain ⟨-, v, hv, heq⟩ := mem_rebuild h.1 hm
      rw [heq]
      exact ih (m.1, v) hv (h.2 (m.1, v) hv)

theorem numbers_sortDeep {p : Number → Prop} {v : JsValue} (h : Distinct v) (hn : Numbers p v) : Numbers p (sortDeep v) := by
  induction v using induct with
  | null => trivial
  | boolean b => trivial
  | number n => exact hn
  | string s => trivial
  | array vs ih =>
    rw [distinct_array] at h
    rw [sortDeep, sortItems_eq, Numbers, numbersItems_iff]
    rw [Numbers, numbersItems_iff] at hn
    intro w hw
    obtain ⟨v, hv, rfl⟩ := List.mem_map.1 hw
    exact ih v hv (h v hv) (hn v hv)
  | object ms ih =>
    rw [distinct_object] at h
    rw [Numbers, numbersMembers_iff] at hn
    rw [sortDeep, Numbers, numbersMembers_iff]
    intro m hm
    obtain ⟨-, v, hv, heq⟩ := mem_rebuild h.1 hm
    rw [heq]
    exact ih (m.1, v) hv (h.2 (m.1, v) hv) (hn (m.1, v) hv)

/-- What is written of a sorted value is clean. -/
theorem clean_written_sortDeep {v : JsValue} (h : Distinct v) : Clean (written (sortDeep v)) := by
  induction v using induct with
  | null => trivial
  | boolean b => trivial
  | number n =>
    cases n with
    | finite q => exact ⟨q, rfl⟩
    | nan => trivial
    | infinite negative => trivial
  | string s => trivial
  | array vs ih =>
    rw [distinct_array] at h
    rw [sortDeep, written, writtenItems_eq, sortItems_eq, List.map_map, clean_array]
    intro w hw
    obtain ⟨v, hv, rfl⟩ := List.mem_map.1 hw
    exact ih v hv (h v hv)
  | object ms ih =>
    rw [distinct_object] at h
    rw [sortDeep, written, writtenMembers_eq, clean_object]
    intro n hn
    obtain ⟨m, hm, rfl⟩ := List.mem_map.1 hn
    obtain ⟨hproto, v, hv, heq⟩ := mem_rebuild h.1 hm
    refine ⟨hproto, ?_⟩
    show Clean (written m.2)
    rw [heq]
    exact ih (m.1, v) hv (h.2 (m.1, v) hv)

/-- **Sorting changes the order of names only**, where the value is clean. -/
theorem same_sortDeep {v : JsValue} (h : Distinct v) (hclean : Clean v) : Same (sortDeep v) v := by
  induction v using induct with
  | null | boolean b | number n | string s => exact .refl _
  | array vs ih =>
    rw [distinct_array] at h
    rw [clean_array] at hclean
    rw [sortDeep, sortItems_eq]
    exact Same.items [] vs fun v hv => ih v hv (h v hv) (hclean v hv)
  | object ms ih =>
    rw [distinct_object] at h
    rw [clean_object] at hclean
    have hnodup : ((sortMembers ms).map Prod.fst).Nodup := by
      rw [map_fst_sortMembers]
      exact h.1
    have hkept : kept (sortMembers ms) = sortMembers ms := by
      refine List.filter_eq_self.2 fun m hm => ?_
      rw [sortMembers_eq] at hm
      obtain ⟨n, hn, rfl⟩ := List.mem_map.1 hm
      exact decide_eq_true (hclean n hn).1
    have hperm := rebuild_perm hnodup
    rw [hkept, sortMembers_eq] at hperm
    rw [sortDeep, sortMembers_eq]
    exact (Same.perm hperm).trans (Same.members [] ms fun m hm => ih m hm (h.2 m hm) (hclean m hm).2)

/-- **Values that are equal up to the order of names are sorted alike.** -/
theorem sortDeep_of_same {v w : JsValue} (h : Same v w) (hdistinct : Distinct v) : sortDeep v = sortDeep w := by
  induction h with
  | refl v => rfl
  | symm h ih => exact (ih (h.distinct.2 hdistinct)).symm
  | trans h h' ih ih' => exact (ih hdistinct).trans (ih' (h.distinct.1 hdistinct))
  | item front back h ih =>
    have hv := distinct_array.1 hdistinct _ (List.mem_append_right front List.mem_cons_self)
    simp only [sortDeep, sortItems_eq, List.map_append, List.map_cons, ih hv]
  | member front name back h ih =>
    have hv := (distinct_object.1 hdistinct).2 _ (List.mem_append_right front List.mem_cons_self)
    simp only [sortDeep, sortMembers_eq, List.map_append, List.map_cons, ih hv]
  | @perm ms ns h =>
    have hperm : (sortMembers ms).Perm (sortMembers ns) := by
      rw [sortMembers_eq, sortMembers_eq]
      exact h.map _
    rw [sortDeep, sortDeep, rebuild_congr hperm]
    rw [map_fst_sortMembers]
    exact (distinct_object.1 hdistinct).1

/-! ## Sorted and written -/

section

variable {f : JsValue → JsValue} {ms : Members}

theorem put_map (out : Members) (m : Text × JsValue) :
    put (out.map fun m => (m.1, f m.2)) (m.1, f m.2) = (put out m).map fun m => (m.1, f m.2) := by
  have hany : (out.map fun m => (m.1, f m.2)).any (fun n => n.1 == m.1) = out.any fun n => n.1 == m.1 := by
    rw [List.any_map]
    rfl
  unfold put
  rw [hany]
  split_ifs
  · rw [List.map_map, List.map_map]
    refine List.map_congr_left fun n _ => ?_
    show (if n.1 = m.1 then (m.1, f m.2) else (n.1, f n.2)) = ((if n.1 = m.1 then m else n).1, f (if n.1 = m.1 then m else n).2)
    split_ifs <;> rfl
  · rw [List.map_append]
    rfl

/-- The members are put in their order by their names. -/
theorem rebuild_map : rebuild (ms.map fun m => (m.1, f m.2)) = (rebuild ms).map fun m => (m.1, f m.2) := by
  have hsort : sortNames (ms.map fun m => (m.1, f m.2)) = (sortNames ms).map fun m => (m.1, f m.2) :=
    (List.map_mergeSort (r := fun a b : Text × JsValue => decide (a.1 ≤ b.1))
      (s := fun a b : Text × JsValue => decide (a.1 ≤ b.1)) (f := fun m : Text × JsValue => (m.1, f m.2)) fun _ _ _ _ => rfl).symm
  have hset (front ns : Members) : (ns.map fun m => (m.1, f m.2)).foldl setProperty (front.map fun m => (m.1, f m.2)) =
      (ns.foldl setProperty front).map fun m => (m.1, f m.2) := by
    induction ns generalizing front with
    | nil => rfl
    | cons n ns ih =>
      rw [List.map_cons, List.foldl_cons, List.foldl_cons, ← ih]
      congr 1
      unfold setProperty
      split_ifs
      · rfl
      · exact put_map front n
  have horder (ns : Members) : ownOrder (ns.map fun m => (m.1, f m.2)) = (ownOrder ns).map fun m => (m.1, f m.2) := by
    unfold ownOrder
    rw [List.map_append, List.filter_map, List.filter_map]
    congr 1
    exact (List.map_mergeSort (r := fun a b : Text × JsValue => decide ((arrayIndex a.1).getD 0 ≤ (arrayIndex b.1).getD 0))
      (s := fun a b : Text × JsValue => decide ((arrayIndex a.1).getD 0 ≤ (arrayIndex b.1).getD 0))
      (f := fun m : Text × JsValue => (m.1, f m.2)) fun _ _ _ _ => rfl).symm
  rw [rebuild, rebuild, hsort, ← horder, ← hset]
  rfl

end

theorem sortDeep_written (v : JsValue) : sortDeep (written v) = written (sortDeep v) := by
  induction v using induct with
  | null => rfl
  | boolean b => rfl
  | number n => cases n <;> rfl
  | string s => rfl
  | array vs ih =>
    rw [written, sortDeep, sortDeep, written, sortItems_eq, sortItems_eq, writtenItems_eq, writtenItems_eq, List.map_map,
      List.map_map]
    exact congrArg JsValue.array (List.map_congr_left ih)
  | object ms ih =>
    have hmembers : sortMembers (writtenMembers ms) = (sortMembers ms).map fun m => (m.1, written m.2) := by
      rw [sortMembers_eq, sortMembers_eq, writtenMembers_eq, List.map_map, List.map_map]
      exact List.map_congr_left fun m hm => Prod.ext rfl (ih m hm)
    rw [written, sortDeep, sortDeep, written, hmembers, writtenMembers_eq, rebuild_map]

variable {P : NumberText} {x y : JsValue}

/-- A value that has been stored and is read again has the canonical text that it had. -/
theorem canonicalJson_written (v : JsValue) : canonicalJson P (written v) = canonicalJson P v := by
  rw [canonicalJson, canonicalJson, sortDeep_written, stringify, stringify, tree_written]

/-! ## The identity of values -/

/-- The canonical text and its hash tell `x` and `y` apart, and the text is read back; the hash of what is stored is that of the
value. -/
structure Identified (P : NumberText) (sha256 : Text → Text) (x y : JsValue) : Prop where
  equal : canonicalJson P x = canonicalJson P y ↔ Same x y
  read : ∀ v ∈ [x, y], ∃ z, parse (canonicalJson P v) = some z ∧ Same z v
  hash : sha256 (canonicalJson P x) = sha256 (canonicalJson P y) ↔ Same x y
  stored : ∀ v ∈ [x, y], ∃ z, parse (stringify P v) = some z ∧ sha256 (canonicalJson P z) = sha256 (canonicalJson P v)

/-- A value that `JSON.parse` gives: no name stands twice, and the numbers are read as they are written. -/
structure Parsed (P : NumberText) (v : JsValue) : Prop where
  distinct : Distinct v
  numbers : Numbers (ReadBack P) v

theorem parse_canonicalJson (hx : Parsed P x) : parse (canonicalJson P x) = some (written (sortDeep x)) :=
  parse_stringify_written (distinct_sortDeep hx.distinct) (numbers_sortDeep hx.distinct hx.numbers)

theorem same_written_sortDeep (hx : Parsed P x) (hclean : Clean x) : Same (written (sortDeep x)) x := by
  have hsame := same_sortDeep hx.distinct hclean
  rwa [written_of_clean ((clean_of_same hsame).2 hclean)]

theorem canonicalJson_eq_iff (hx : Parsed P x) (hy : Parsed P y) (hcx : Clean x) (hcy : Clean y) :
    canonicalJson P x = canonicalJson P y ↔ Same x y := by
  constructor
  · intro h
    have hread := parse_canonicalJson hx
    rw [h, parse_canonicalJson hy] at hread
    have heq := Option.some.inj hread
    have hsame := same_written_sortDeep hx hcx
    rw [← heq] at hsame
    exact hsame.symm.trans (same_written_sortDeep hy hcy)
  · intro h
    rw [canonicalJson, canonicalJson, sortDeep_of_same h hx.distinct]

theorem Identified.clean {sha256 : Text → Text} (h : Identified P sha256 x y) (hx : Parsed P x) (hy : Parsed P y) :
    Clean x ∧ Clean y := by
  have hclean (v : JsValue) (hv : v ∈ [x, y]) (hparsed : Parsed P v) : Clean v := by
    obtain ⟨z, hz, hsame⟩ := h.read v hv
    rw [parse_canonicalJson hparsed] at hz
    obtain rfl := Option.some.inj hz
    exact (clean_of_same hsame).1 (clean_written_sortDeep hparsed.distinct)
  exact ⟨hclean x (by simp) hx, hclean y (by simp) hy⟩

/-- **When canonical JSON identifies values**: no object has the name `__proto__`, and all numbers are finite. -/
theorem canonicalJson_identifies_iff (P : NumberText) (sha256 : Text → Text) (x y : JsValue) (hx : Parsed P x) (hy : Parsed P y)
    (hsha : sha256 (canonicalJson P x) = sha256 (canonicalJson P y) → canonicalJson P x = canonicalJson P y) :
    Identified P sha256 x y ↔ Clean x ∧ Clean y := by
  have hstored : ∀ v ∈ [x, y], ∃ z, parse (stringify P v) = some z ∧ sha256 (canonicalJson P z) = sha256 (canonicalJson P v) := by
    intro v hv
    have hparsed : Parsed P v := by
      rcases List.mem_pair.1 hv with rfl | rfl
      · exact hx
      · exact hy
    exact ⟨written v, parse_stringify_written hparsed.distinct hparsed.numbers, by rw [canonicalJson_written]⟩
  constructor
  · intro h
    exact h.clean hx hy
  · rintro ⟨hcx, hcy⟩
    have hequal := canonicalJson_eq_iff hx hy hcx hcy
    refine ⟨hequal, fun v hv => ?_, ⟨fun h => hequal.1 (hsha h), fun h => congrArg sha256 (hequal.2 h)⟩, hstored⟩
    rcases List.mem_pair.1 hv with rfl | rfl
    · exact ⟨_, parse_canonicalJson hx, same_written_sortDeep hx hcx⟩
    · exact ⟨_, parse_canonicalJson hy, same_written_sortDeep hy hcy⟩

/-- `{"b":1,"a":2}` -/
def swapped : JsValue := .object [(text "b", .number (.finite (1 : ℕ))), (text "a", .number (.finite (2 : ℕ)))]

/-- `{"a":2,"b":1}` -/
def straight : JsValue := .object [(text "a", .number (.finite (2 : ℕ))), (text "b", .number (.finite (1 : ℕ)))]

theorem parsed_swapped : Parsed fractionText swapped where
  distinct := ⟨by decide, trivial, trivial, trivial⟩
  numbers := ⟨readBack_natCast (by decide), readBack_natCast (by decide), trivial⟩

theorem parsed_straight : Parsed fractionText straight where
  distinct := ⟨by decide, trivial, trivial, trivial⟩
  numbers := ⟨readBack_natCast (by decide), readBack_natCast (by decide), trivial⟩

theorem clean_swapped : Clean swapped := ⟨⟨by decide, 1, by norm_num⟩, ⟨by decide, 2, by norm_num⟩, trivial⟩

theorem clean_straight : Clean straight := ⟨⟨by decide, 2, by norm_num⟩, ⟨by decide, 1, by norm_num⟩, trivial⟩

/-- Two orders of the names have one text, and are the same value. -/
theorem canonicalJson_identifies_swapped : Identified fractionText id swapped straight :=
  (canonicalJson_identifies_iff fractionText id swapped straight parsed_swapped parsed_straight id).2 ⟨clean_swapped, clean_straight⟩

/-- `{"__proto__":null}` -/
def withProto : JsValue := .object [(proto, .null)]

/-- `{"__proto__":null}` has the canonical text of `{}`. -/
theorem proto_is_dropped :
    ¬(∀ (P : NumberText) (sha256 : Text → Text) (x y : JsValue), Parsed P x → Parsed P y →
        (sha256 (canonicalJson P x) = sha256 (canonicalJson P y) → canonicalJson P x = canonicalJson P y) →
        Identified P sha256 x y) ∧
      canonicalJson fractionText withProto = text "{}" ∧ canonicalJson fractionText (.object []) = text "{}" := by
  have hdropped : canonicalJson fractionText withProto = canonicalJson fractionText (.object []) := by
    simp [canonicalJson, withProto, sortDeep, sortMembers, rebuild, sortNames, setProperty, ownOrder]
  have hempty : canonicalJson fractionText (.object []) = text "{}" := by
    simp [canonicalJson, sortDeep, sortMembers, rebuild, sortNames, ownOrder]
    decide
  refine ⟨fun h => ?_, hdropped.trans hempty, hempty⟩
  have hparsed : Parsed fractionText withProto := ⟨⟨by decide, trivial, trivial⟩, trivial, trivial⟩
  have hidentified := h fractionText id withProto withProto hparsed hparsed id
  exact (hidentified.clean hparsed hparsed).1.1.1 rfl

end LlmGateway.Validation.Canonical
