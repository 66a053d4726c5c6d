import LlmGateway.Lib.CodePoint

/-!
# Decoding UTF-8

* `write` — a decoder that holds back a character whose bytes have not all come; what cannot be the beginning of a character
  becomes a replacement character, as far as it could have been one;
* `decode` — `buffer.toString()`;
* `encode` — `Buffer.from(s, "utf8")`; a surrogate by itself is written as a replacement character;
* `decode_append` — the parts of a text can be decoded one by one, where no character is cut.
-/

namespace LlmGateway.Lib.Utf8

open Utf16

/-- A character that has begun: how many bytes it needs, the range of the next one, and its number so far. -/
structure Pending where
  needed : ℕ
  lower : UInt8
  upper : UInt8
  codePoint : ℕ
deriving DecidableEq

def pointUnits (n : ℕ) : Text := if n < 0x10000 then [n.toUInt16] else surrogates n

/-- The first byte of a character. -/
def start (b : UInt8) : Text × Option Pending :=
  let n := b.toNat
  if n < 0x80 then ([n.toUInt16], none)
  else if 0xC2 ≤ n ∧ n ≤ 0xDF then ([], some ⟨1, 0x80, 0xBF, n - 0xC0⟩)
  else if 0xE0 ≤ n ∧ n ≤ 0xEF then
    ([], some ⟨2, if n = 0xE0 then 0xA0 else 0x80, if n = 0xED then 0x9F else 0xBF, n - 0xE0⟩)
  else if 0xF0 ≤ n ∧ n ≤ 0xF4 then
    ([], some ⟨3, if n = 0xF0 then 0x90 else 0x80, if n = 0xF4 then 0x8F else 0xBF, n - 0xF0⟩)
  else ([0xFFFD], none)

def feed : Option Pending → UInt8 → Text × Option Pending
  | none, b => start b
  | some p, b =>
    if p.lower ≤ b ∧ b ≤ p.upper then
      let n := p.codePoint * 64 + (b.toNat - 0x80)
      if p.needed = 1 then (pointUnits n, none) else ([], some ⟨p.needed - 1, 0x80, 0xBF, n⟩)
    else (0xFFFD :: (start b).1, (start b).2)

/-- `decoder.write(chunk)` -/
def write : Option Pending → List UInt8 → Text × Option Pending
  | p, [] => ([], p)
  | p, b :: bs => ((feed p b).1 ++ (write (feed p b).2 bs).1, (write (feed p b).2 bs).2)

def flush (p : Option Pending) : Text := if p.isSome then [0xFFFD] else []

def decode (bs : List UInt8) : Text := (write none bs).1 ++ flush (write none bs).2

theorem write_append (p : Option Pending) (as bs : List UInt8) :
    write p (as ++ bs) = ((write p as).1 ++ (write (write p as).2 bs).1, (write (write p as).2 bs).2) := by
  induction as generalizing p with
  | nil => rfl
  | cons a as ih =>
    rw [List.cons_append, write, ih]
    simp [write]

/-- The bytes go on with the character that has begun. -/
def Continues : Option Pending → List UInt8 → Prop
  | some p, b :: _ => p.lower ≤ b ∧ b ≤ p.upper
  | _, _ => False

instance : ∀ p bs, Decidable (Continues p bs)
  | some p, b :: _ => inferInstanceAs (Decidable (p.lower ≤ b ∧ b ≤ p.upper))
  | some _, [] => inferInstanceAs (Decidable False)
  | none, _ => inferInstanceAs (Decidable False)

theorem write_of_not_continues {p : Option Pending} {b : UInt8} {bs : List UInt8} (h : ¬Continues p (b :: bs)) :
    write p (b :: bs) = (flush p ++ (write none (b :: bs)).1, (write none (b :: bs)).2) := by
  match p with
  | none => rfl
  | some p =>
    simp only [Continues] at h
    simp [write, feed, if_neg h, flush]

/-- **Parts can be decoded one by one**, where no character is cut. -/
theorem decode_append {as bs : List UInt8} (h : ¬Continues (write none as).2 bs) : decode (as ++ bs) = decode as ++ decode bs := by
  cases bs with
  | nil =>
    show decode (as ++ []) = decode as ++ []
    rw [List.append_nil, List.append_nil]
  | cons b bs =>
    unfold decode
    rw [write_append, write_of_not_continues h]
    simp only [List.append_assoc]

/-! ## Encoding -/

/-- The bytes of a code point. -/
def pointBytes (n : ℕ) : List UInt8 :=
  if n < 0x80 then [n.toUInt8]
  else if n < 0x800 then [(0xC0 + n / 0x40).toUInt8, (0x80 + n % 0x40).toUInt8]
  else if n < 0x10000 then [(0xE0 + n / 0x1000).toUInt8, (0x80 + n / 0x40 % 0x40).toUInt8, (0x80 + n % 0x40).toUInt8]
  else
    [(0xF0 + n / 0x40000).toUInt8, (0x80 + n / 0x1000 % 0x40).toUInt8, (0x80 + n / 0x40 % 0x40).toUInt8, (0x80 + n % 0x40).toUInt8]

/-- The code point that is written for one of a text. -/
def scalar : Text → ℕ
  | [u] => if isSurrogate u then 0xFFFD else u.toNat
  | p => pointValue p

def encode (s : Text) : List UInt8 := (points s).flatMap fun p => pointBytes (scalar p)

/-- A text with its lone surrogates replaced. -/
def scrub (s : Text) : Text := (points s).flatMap fun p => pointUnits (scalar p)

/-- A code point that is no surrogate. -/
structure IsScalar (n : ℕ) : Prop where
  bound : n < 0x110000
  noSurrogate : n < 0xD800 ∨ 0xE000 ≤ n

theorem isScalar_scalar {p : Text} (h : IsPoint p) : IsScalar (scalar p) := by
  cases h with
  | unit u =>
    have hu := u.toNat_lt
    rw [scalar]
    split_ifs with hsurrogate
    · exact ⟨by omega, by omega⟩
    · refine ⟨by omega, ?_⟩
      simp only [isSurrogate, Bool.or_eq_true, isLead_iff, isTrail_iff, not_or, not_and] at hsurrogate
      omega
  | @pair u v hu hv =>
    have hvalue : scalar [u, v] = 0x10000 + (u.toNat - 0xD800) * 0x400 + (v.toNat - 0xDC00) := by
      unfold scalar pointValue
      rfl
    rw [isLead_iff] at hu
    rw [isTrail_iff] at hv
    exact ⟨by omega, by omega⟩

theorem toNat_byte {k : ℕ} (h : k < 256) : k.toUInt8.toNat = k := by
  rw [UInt8.toNat_ofNat', Nat.mod_eq_of_lt h]

theorem feed_next {p : Pending} {k : ℕ} (hlower : p.lower.toNat ≤ k) (hupper : k ≤ p.upper.toNat) :
    feed (some p) k.toUInt8 =
      if p.needed = 1 then (pointUnits (p.codePoint * 64 + (k - 0x80)), none)
      else ([], some ⟨p.needed - 1, 0x80, 0xBF, p.codePoint * 64 + (k - 0x80)⟩) := by
  have hk := toNat_byte (k := k) (by have := p.upper.toNat_lt; omega)
  have hrange : p.lower ≤ k.toUInt8 ∧ k.toUInt8 ≤ p.upper := by
    rw [UInt8.le_iff_toNat_le, UInt8.le_iff_toNat_le, hk]
    exact ⟨hlower, hupper⟩
  rw [feed, if_pos hrange, hk]

/-- The last byte of a character. -/
theorem write_last {lower upper : UInt8} {c k n : ℕ} (hlower : lower.toNat ≤ k) (hupper : k ≤ upper.toNat)
    (hn : c * 64 + (k - 0x80) = n) (bs : List UInt8) :
    write (some ⟨1, lower, upper, c⟩) (k.toUInt8 :: bs) = (pointUnits n ++ (write none bs).1, (write none bs).2) := by
  rw [write, feed_next hlower hupper, if_pos rfl, hn]

/-- A byte of a character in front of others. -/
theorem write_middle {needed : ℕ} {lower upper : UInt8} {c k n : ℕ} (hlower : lower.toNat ≤ k) (hupper : k ≤ upper.toNat)
    (hn : c * 64 + (k - 0x80) = n) (bs : List UInt8) :
    write (some ⟨needed + 2, lower, upper, c⟩) (k.toUInt8 :: bs) = write (some ⟨needed + 1, 0x80, 0xBF, n⟩) bs := by
  rw [write, feed_next hlower hupper, if_neg (show ¬needed + 2 = 1 by omega), hn]
  rfl

/-- The bytes of a code point are read as its code units. -/
theorem write_pointBytes {n : ℕ} (h : IsScalar n) (bs : List UInt8) :
    write none (pointBytes n ++ bs) = (pointUnits n ++ (write none bs).1, (write none bs).2) := by
  have hbound := h.bound
  have hsurrogate := h.noSurrogate
  have hlow : (0x80 : UInt8).toNat = 0x80 := rfl
  have hhigh : (0xBF : UInt8).toNat = 0xBF := rfl
  unfold pointBytes
  split_ifs with h1 h2 h3
  · have hfirst : start n.toUInt8 = (pointUnits n, none) := by
      rw [start, toNat_byte (by omega), if_pos h1, pointUnits, if_pos (by omega)]
    rw [List.singleton_append, write, feed, hfirst]
  · have hfirst : start (0xC0 + n / 0x40).toUInt8 = ([], some ⟨1, 0x80, 0xBF, n / 0x40⟩) := by
      rw [start, toNat_byte (by omega), if_neg (by omega), if_pos (by omega), Nat.add_sub_cancel_left]
    rw [List.cons_append, List.singleton_append, write, feed, hfirst,
      write_last (n := n) (by omega) (by omega) (by omega)]
    rfl
  · have hfirst : start (0xE0 + n / 0x1000).toUInt8 = ([], some ⟨2, if n / 0x1000 = 0 then 0xA0 else 0x80,
        if n / 0x1000 = 0xD then 0x9F else 0xBF, n / 0x1000⟩) := by
      have hzero : 0xE0 + n / 0x1000 = 0xE0 ↔ n / 0x1000 = 0 := by omega
      have hd : 0xE0 + n / 0x1000 = 0xED ↔ n / 0x1000 = 0xD := by omega
      rw [start, toNat_byte (by omega), if_neg (by omega), if_neg (by omega), if_pos (by omega), Nat.add_sub_cancel_left]
      simp only [hzero, hd]
    have hlower : (if n / 0x1000 = 0 then (0xA0 : UInt8) else 0x80).toNat ≤ 0x80 + n / 0x40 % 0x40 := by
      split_ifs with hzero
      · show 0xA0 ≤ _
        omega
      · show 0x80 ≤ _
        omega
    have hupper : 0x80 + n / 0x40 % 0x40 ≤ (if n / 0x1000 = 0xD then (0x9F : UInt8) else 0xBF).toNat := by
      split_ifs with hd
      · show _ ≤ 0x9F
        omega
      · show _ ≤ 0xBF
        omega
    rw [List.cons_append, List.cons_append, List.singleton_append, write, feed, hfirst,
      @write_middle 0 _ _ _ _ (n / 0x40) hlower hupper (by omega),
      write_last (n := n) (by omega) (by omega) (by omega)]
    rfl
  · have hfirst : start (0xF0 + n / 0x40000).toUInt8 = ([], some ⟨3, if n / 0x40000 = 0 then 0x90 else 0x80,
        if n / 0x40000 = 4 then 0x8F else 0xBF, n / 0x40000⟩) := by
      have hzero : 0xF0 + n / 0x40000 = 0xF0 ↔ n / 0x40000 = 0 := by omega
      have hfour : 0xF0 + n / 0x40000 = 0xF4 ↔ n / 0x40000 = 4 := by omega
      rw [start, toNat_byte (by omega), if_neg (by omega), if_neg (by omega), if_neg (by omega), if_pos (by omega),
        Nat.add_sub_cancel_left]
      simp only [hzero, hfour]
    have hlower : (if n / 0x40000 = 0 then (0x90 : UInt8) else 0x80).toNat ≤ 0x80 + n / 0x1000 % 0x40 := by
      split_ifs with hzero
      · show 0x90 ≤ _
        omega
      · show 0x80 ≤ _
        omega
    have hupper : 0x80 + n / 0x1000 % 0x40 ≤ (if n / 0x40000 = 4 then (0x8F : UInt8) else 0xBF).toNat := by
      split_ifs with hfour
      · show _ ≤ 0x8F
        omega
      · show _ ≤ 0xBF
        omega
    rw [List.cons_append, List.cons_append, List.cons_append, List.singleton_append, write, feed, hfirst,
      @write_middle 1 _ _ _ _ (n / 0x1000) hlower hupper (by omega),
      @write_middle 0 _ _ _ _ (n / 0x40) (by omega) (by omega) (by omega),
      write_last (n := n) (by omega) (by omega) (by omega)]
    rfl

/-- **What has been encoded is read back.** -/
theorem decode_encode (s : Text) : decode (encode s) = scrub s := by
  have hall (ps : List Text) (hps : ∀ p ∈ ps, IsPoint p) :
      write none (ps.flatMap fun p => pointBytes (scalar p)) = (ps.flatMap fun p => pointUnits (scalar p), none) := by
    induction ps with
    | nil => rfl
    | cons p ps ih =>
      rw [List.flatMap_cons, write_pointBytes (isScalar_scalar (hps p List.mem_cons_self)),
        ih fun q hq => hps q (List.mem_cons_of_mem p hq)]
      rfl
  rw [decode, encode, hall _ fun p hp => isPoint_of_mem hp]
  exact List.append_nil _

theorem length_pointUnits_scalar {p : Text} (h : IsPoint p) : (pointUnits (scalar p)).length = p.length := by
  cases h with
  | unit u =>
    have hsmall : scalar [u] < 0x10000 := by
      have hu := u.toNat_lt
      rw [scalar]
      split_ifs <;> omega
    rw [pointUnits, if_pos hsmall]
    rfl
  | @pair u v hu hv =>
    have hplane : ¬scalar [u, v] < 0x10000 := by
      have hle := (surrogates_pointValue hu hv).2
      have hscalar : scalar [u, v] = pointValue [u, v] := by
        unfold scalar
        rfl
      omega
    rw [pointUnits, if_neg hplane]
    simp [surrogates]

/-- The replacements take as much room. -/
theorem length_scrub (s : Text) : (scrub s).length = s.length := by
  have hall (ps : List Text) (hps : ∀ p ∈ ps, IsPoint p) :
      (ps.flatMap fun p => pointUnits (scalar p)).length = ps.flatten.length := by
    induction ps with
    | nil => rfl
    | cons p ps ih =>
      rw [List.flatMap_cons, List.flatten_cons, List.length_append, List.length_append,
        length_pointUnits_scalar (hps p List.mem_cons_self), ih fun q hq => hps q (List.mem_cons_of_mem p hq)]
  rw [scrub, hall _ fun p hp => isPoint_of_mem hp, flatten_points]

/-- A text without lone surrogates needs no replacements. -/
theorem scrub_of_wellFormed {s : Text} (h : WellFormed s) : scrub s = s := by
  unfold scrub
  induction s using points.induct with
  | case1 => rfl
  | case2 u =>
    have hu : isSurrogate u = false := by
      simp only [WellFormed, wellFormedFrom, Bool.false_eq_true, if_false] at h
      split_ifs at h with hlead
      · cases h
      · rw [Bool.and_eq_true, Bool.not_eq_true'] at h
        rw [isSurrogate, eq_false_of_ne_true hlead, h.1, Bool.or_false]
    have hsmall := u.toNat_lt
    rw [points, List.flatMap_singleton, scalar, if_neg (by simp [hu]), pointUnits, if_pos hsmall]
    simp
  | case3 u v s hpair ih =>
    obtain ⟨hu, hv⟩ := Bool.and_eq_true_iff.1 hpair
    have hs : WellFormed s := by
      simp only [WellFormed, wellFormedFrom, Bool.false_eq_true, if_false, hu, hv, if_true, Bool.true_and] at h
      exact h
    obtain ⟨hunits, hplane⟩ := surrogates_pointValue hu hv
    have hscalar : scalar [u, v] = pointValue [u, v] := by
      unfold scalar
      rfl
    rw [points, if_pos hpair, List.flatMap_cons, ih hs, hscalar, pointUnits, if_neg (by omega), hunits]
    rfl
  | case4 u v s hpair ih =>
    have hboth : isSurrogate u = false ∧ WellFormed (v :: s) := by
      rw [WellFormed, wellFormedFrom, if_neg Bool.false_ne_true] at h
      split_ifs at h with hlead
      · rw [wellFormedFrom, if_pos rfl, Bool.and_eq_true] at h
        exact absurd (Bool.and_eq_true_iff.2 ⟨hlead, h.1⟩) hpair
      · rw [Bool.and_eq_true, Bool.not_eq_true'] at h
        exact ⟨by rw [isSurrogate, eq_false_of_ne_true hlead, h.1, Bool.or_false], h.2⟩
    have hsmall := u.toNat_lt
    rw [points, if_neg hpair, List.flatMap_cons, ih hboth.2, scalar, if_neg (by simp [hboth.1]), pointUnits, if_pos hsmall]
    simp

/-- Texts without lone surrogates are not encoded alike. -/
theorem encode_injective {s t : Text} (hs : WellFormed s) (ht : WellFormed t) (h : encode s = encode t) : s = t := by
  rw [← scrub_of_wellFormed hs, ← scrub_of_wellFormed ht, ← decode_encode, ← decode_encode, h]

/-! ## Characters -/

/-- A text of characters in UTF-16. -/
def units (cs : List Char) : Text := cs.flatMap fun c => pointUnits c.toNat

theorem length_units_le (cs : List Char) : (units cs).length ≤ 2 * cs.length := by
  induction cs with
  | nil => exact le_rfl
  | cons c cs ih =>
    have hc : (pointUnits c.toNat).length ≤ 2 := by
      unfold pointUnits
      split_ifs
      · exact Nat.le_succ 1
      · exact le_rfl
    have hunits : units (c :: cs) = pointUnits c.toNat ++ units cs := List.flatMap_cons
    rw [hunits, List.length_append, List.length_cons]
    omega

theorem isScalar_toNat (c : Char) : IsScalar c.toNat := by
  have hvalid := c.valid
  have hvalue : c.val.toNat = c.toNat := rfl
  simp only [UInt32.isValidChar, Nat.isValidChar, hvalue] at hvalid
  exact ⟨by omega, by omega⟩

theorem toNat_unit {k : ℕ} (h : k < 65536) : k.toUInt16.toNat = k := by
  simp [Nat.mod_eq_of_lt h]

theorem isPoint_pointUnits {n : ℕ} (h : IsScalar n) : IsPoint (pointUnits n) ∧ ∀ u ∈ (pointUnits n).head?, isTrail u = false := by
  have hbound := h.bound
  have hsurrogate := h.noSurrogate
  unfold pointUnits
  split_ifs with hsmall
  · refine ⟨.unit _, fun u hu => ?_⟩
    obtain rfl := Option.some.inj hu
    rw [← Bool.not_eq_true, isTrail_iff, toNat_unit hsmall]
    omega
  · have hlead : (0xD800 + (n - 0x10000) / 0x400) < 65536 := by omega
    have htrail : (0xDC00 + (n - 0x10000) % 0x400) < 65536 := by omega
    refine ⟨.pair (isLead_iff.2 ?_) (isTrail_iff.2 ?_), fun u hu => ?_⟩
    · rw [toNat_unit hlead]
      omega
    · rw [toNat_unit htrail]
      omega
    · obtain rfl := Option.some.inj hu
      rw [← Bool.not_eq_true, isTrail_iff, toNat_unit hlead]
      omega

theorem pointUnits_injective {m n : ℕ} (hm : IsScalar m) (hn : IsScalar n) (h : pointUnits m = pointUnits n) : m = n := by
  have hm' := hm.bound
  have hn' := hn.bound
  unfold pointUnits at h
  split_ifs at h with hsmall hsmall' hsmall'
  · have heq := congrArg UInt16.toNat (List.cons.inj h).1
    rwa [toNat_unit hsmall, toNat_unit hsmall'] at heq
  · exact absurd (congrArg List.length h) (by simp [surrogates])
  · exact absurd (congrArg List.length h) (by simp [surrogates])
  · obtain ⟨hlead, htrail⟩ := List.cons.inj h
    have hlead := congrArg UInt16.toNat hlead
    have htrail := congrArg UInt16.toNat (List.cons.inj htrail).1
    rw [toNat_unit (by omega), toNat_unit (by omega)] at hlead htrail
    omega

/-- **Texts of characters are not alike in UTF-16.** -/
theorem units_injective : Function.Injective units := by
  have hpoints (cs : List Char) : points (units cs) = cs.map fun c => pointUnits c.toNat := by
    have hflat := points_flatMap (l := cs) (t := []) (f := fun c : Char => pointUnits c.toNat)
      (fun c _ => (isPoint_pointUnits (isScalar_toNat c)).2) (by simp)
    rw [List.append_nil] at hflat
    rw [units, hflat, List.map_eq_flatMap]
    show _ ++ [] = _
    rw [List.append_nil]
    exact List.flatMap_congr fun c _ => (isPoint_pointUnits (isScalar_toNat c)).1.points
  intro cs ds h
  have heq := congrArg points h
  rw [hpoints, hpoints] at heq
  refine List.map_injective_iff.2 (fun c d hcd => ?_) heq
  exact Char.toNat_inj.1 (pointUnits_injective (isScalar_toNat c) (isScalar_toNat d) hcd)

theorem eq_zero_of_mem_pointBytes {n : ℕ} (hn : n < 0x110000) (h : 0 ∈ pointBytes n) : n = 0 := by
  have hbyte {k : ℕ} (hk : k < 256) (hzero : (0 : UInt8) = k.toUInt8) : k = 0 := by
    have := congrArg UInt8.toNat hzero
    rw [toNat_byte hk] at this
    exact this.symm
  unfold pointBytes at h
  split_ifs at h <;> simp only [List.mem_cons, List.not_mem_nil, or_false] at h
  · exact hbyte (by omega) h
  · rcases h with h | h <;> exact absurd (hbyte (by omega) h) (by omega)
  · rcases h with h | h | h <;> exact absurd (hbyte (by omega) h) (by omega)
  · rcases h with h | h | h | h <;> exact absurd (hbyte (by omega) h) (by omega)

/-- A text without NUL is encoded without a zero. -/
theorem zero_notMem_encode {s : Text} (h : 0 ∉ s) : 0 ∉ encode s := by
  intro hzero
  obtain ⟨p, hp, hbytes⟩ := List.mem_flatMap.1 hzero
  have hpoint := isPoint_of_mem hp
  have hscalar := eq_zero_of_mem_pointBytes (isScalar_scalar hpoint).bound hbytes
  cases hpoint with
  | unit u =>
    rw [scalar] at hscalar
    split_ifs at hscalar
    obtain rfl : u = 0 := UInt16.toNat_inj.1 hscalar
    exact h (flatten_points s ▸ List.mem_flatten_of_mem hp List.mem_cons_self)
  | @pair u v hu hv =>
    unfold scalar pointValue at hscalar
    simp only at hscalar
    omega

example : decode [0x61, 0xE2, 0x82, 0xAC, 0xF0, 0x9F, 0x98, 0x80, 0xE2, 0x82] = [0x61, 0x20AC, 0xD83D, 0xDE00, 0xFFFD] := by
  decide +kernel

/-! ## ASCII -/

section ascii

variable {as : List UInt8} (has : ∀ a ∈ as, a < 0x80)

include has

theorem decode_ascii_append (bs : List UInt8) : decode (as ++ bs) = as.map UInt8.toUInt16 ++ decode bs := by
  induction as with
  | nil => rfl
  | cons a as ih =>
    have ha : a.toNat < 0x80 := UInt8.lt_iff_toNat_lt.1 (has a List.mem_cons_self)
    have hunit : a.toNat.toUInt16 = a.toUInt16 := by
      rw [← UInt16.toNat_inj, toNat_unit (by omega), UInt8.toNat_toUInt16]
    have hfeed : feed none a = ([a.toUInt16], none) := by rw [feed, start, if_pos ha, hunit]
    have hrest := ih fun b hb => has b (List.mem_cons_of_mem a hb)
    unfold decode at hrest ⊢
    simp only [List.cons_append, write, hfeed, List.map_cons, List.nil_append]
    rw [← hrest]

theorem encode_ascii_append (t : Text) : encode (as.map UInt8.toUInt16 ++ t) = as ++ encode t := by
  induction as with
  | nil => rfl
  | cons a as ih =>
    have ha : a.toNat < 0x80 := UInt8.lt_iff_toNat_lt.1 (has a List.mem_cons_self)
    have hlt : a.toUInt16.toNat < 0x80 := by simpa using ha
    have hlead : isLead a.toUInt16 = false := by
      have := isLead_iff (u := a.toUInt16)
      cases h : isLead a.toUInt16 with
      | false => rfl
      | true => exact absurd (this.1 h).1 (by omega)
    have hpoint : pointBytes (scalar [a.toUInt16]) = [a] := by
      have hnot : isSurrogate a.toUInt16 = false := isSurrogate_of_lt (by omega)
      rw [scalar, hnot, if_neg (by simp), pointBytes, if_pos hlt]
      simp
    have hrest := ih fun b hb => has b (List.mem_cons_of_mem a hb)
    unfold encode at hrest ⊢
    rw [List.map_cons, List.cons_append, points_cons_of_not_isLead hlead, List.flatMap_cons, hpoint, hrest]
    rfl

end ascii

end LlmGateway.Lib.Utf8
