import LlmGateway.Worktrees.Adoption
import Mathlib.Data.List.ReduceOption

/-!
# No identity of a worktree is stolen or stranded

* `Stacked` — the markers of the session lie one on the other, and each is taken off by the call that put it there;
* `inv_step` — every step that is not raced keeps them so;
* `recovers` — from a settled state the next repair or adoption brings marker and record together;
* `adoption_safe` — the property of a whole run;
* `not_adoption_safe` — three adoptions that overlap strand the record.
-/

namespace LlmGateway.Worktrees

open LlmGateway.Lib

/-! ### Markers that lie one on the other -/

namespace Adoption

/-- The token that the call has drawn, with that of the marker it was to lie on. -/
def drawn : Adoption → Option (String × Option String)
  | .reading _ | .writing _ => none
  | .confirming token prior | .recording token prior | .settling token prior | .undoing token prior => some (token, prior)

/-- The call may still record its token. -/
def Pending : Adoption → Prop
  | .confirming _ _ | .recording _ _ => True
  | _ => False

def tokens : Adoption → List String
  | .reading _ => []
  | .writing prior => prior.toList
  | .confirming token prior | .recording token prior | .settling token prior | .undoing token prior => token :: prior.toList

end Adoption

/-- The markers of the session, the one on disk first and below each the one it was written over. -/
structure Stacked (id : String) (s : State) (stack : List String) : Prop where
  nodup : stack.Nodup
  mine : ∀ token ∈ stack, token ∈ s.mine
  top : ∀ token, readAdminMarker s.marker = .token token (some id) ↔ stack.head? = some token
  record : ∀ token, s.record = some token → token ∈ stack
  pending : ∀ i a token prior, s.adoptions i = some a → a.drawn = some (token, prior) → a.Pending → s.record = none →
    token ∈ stack
  below : ∀ i a token prior, s.adoptions i = some a → a.drawn = some (token, prior) → token ∈ stack →
    ∃ above rest, stack = above ++ token :: rest ∧ rest.head? = prior

structure Inv (id : String) (s : State) : Prop where
  apart : ∀ token ∈ s.mine, token ∉ s.theirs
  nonempty : ∀ token ∈ s.mine, token ≠ ""
  own : ∀ token, readAdminMarker s.marker = .token token (some id) → token ∈ s.mine
  record : ∀ token, s.record = some token → token ∈ s.mine
  tokens : ∀ i a, s.adoptions i = some a → ∀ token ∈ a.tokens, token ∈ s.mine
  distinct : ∀ i j a b token p q, s.adoptions i = some a → s.adoptions j = some b → a.drawn = some (token, p) →
    b.drawn = some (token, q) → i = j
  unrecorded : ∀ i a token prior, s.adoptions i = some a → a.drawn = some (token, prior) → s.record ≠ some token
  repairs : ∀ j r, s.repairs j = some r → s.record = some r.recordedToken
  stacked : s.replaced = false → ∃ stack, Stacked id s stack

theorem inv_init (id : String) : Inv id init where
  apart := by
    intro token h
    cases h
  nonempty := by
    intro token h
    cases h
  own := by
    intro token h
    cases h
  record := by
    intro token h
    cases h
  tokens := by
    intro i a h
    cases h
  distinct := by
    intro i j a b token p q h
    cases h
  unrecorded := by
    intro i a token prior h
    cases h
  repairs := by
    intro j r h
    cases h
  stacked := by
    intro _
    refine ⟨[], List.nodup_nil, ?_, ?_, ?_, ?_, ?_⟩
    · simp
    · simp [init, readAdminMarker]
    · simp [init]
    · simp [init]
    · simp [init]

theorem Adoption.mem_tokens {a : Adoption} {token : String} {prior : Option String} (h : a.drawn = some (token, prior)) :
    token ∈ a.tokens ∧ ∀ p, prior = some p → p ∈ a.tokens := by
  cases a with
  | reading recorded => cases h
  | writing p => cases h
  | confirming t p | recording t p | settling t p | undoing t p =>
    cases h
    refine ⟨List.mem_cons_self, ?_⟩
    intro p hp
    simp [tokens, hp]

section Keeping

variable {id : String} {s : State} {i : ℕ}

/-- A call stands no worse than before: it has drawn nothing new, and what it may still record it might before. -/
def Follows (old new : Option Adoption) : Prop :=
  ∀ b m, new = some b → b.drawn = some m → ∃ c, old = some c ∧ c.drawn = some m ∧ (b.Pending → c.Pending)

theorem Follows.refl (a : Option Adoption) : Follows a a := fun b _ hb hm => ⟨b, hb, hm, fun h => h⟩

theorem Follows.none {a : Option Adoption} : Follows a none := by
  intro b m hb
  cases hb

theorem Follows.of_undrawn {a : Option Adoption} {b : Adoption} (h : b.drawn = Option.none) : Follows a (some b) := by
  intro b' m hb hm
  cases hb
  rw [h] at hm
  cases hm

theorem Follows.update {a : Option Adoption} (h : Follows (s.adoptions i) a) (j : ℕ) :
    Follows (s.adoptions j) (Function.update s.adoptions i a j) := by
  by_cases hj : j = i
  · subst hj
    rw [Function.update_self]
    exact h
  · rw [Function.update_of_ne hj]
    exact Follows.refl _

/-- The stack does not change as long as marker and record do not, and no call draws a token. -/
theorem Stacked.follow {s' : State} {stack : List String} (h : Stacked id s stack) (hmarker : s'.marker = s.marker)
    (hrecord : s'.record = s.record) (hmine : ∀ token ∈ s.mine, token ∈ s'.mine)
    (hcalls : ∀ j, Follows (s.adoptions j) (s'.adoptions j)) : Stacked id s' stack where
  nodup := h.nodup
  mine := fun token htoken => hmine token (h.mine token htoken)
  top := by
    rw [hmarker]
    exact h.top
  record := by
    rw [hrecord]
    exact h.record
  pending := by
    intro j b token prior hb hdrawn hpending hnone
    obtain ⟨c, hc, hdrawn', hpending'⟩ := hcalls j b _ hb hdrawn
    exact h.pending j c token prior hc hdrawn' (hpending' hpending) (hrecord ▸ hnone)
  below := by
    intro j b token prior hb hdrawn hmem
    obtain ⟨c, hc, hdrawn', -⟩ := hcalls j b _ hb hdrawn
    exact h.below j c token prior hc hdrawn' hmem

theorem Inv.setAdoption (hs : Inv id s) {a : Option Adoption} (hfollows : Follows (s.adoptions i) a)
    (htokens : ∀ b, a = some b → ∀ token ∈ b.tokens, token ∈ s.mine) : Inv id (s.setAdoption i a) where
  apart := hs.apart
  nonempty := hs.nonempty
  own := hs.own
  record := hs.record
  tokens := by
    intro j b hb token hmem
    by_cases hj : j = i
    · subst hj
      exact htokens b (by simpa [State.setAdoption] using hb) token hmem
    · exact hs.tokens j b (by simpa [State.setAdoption, Function.update_of_ne hj] using hb) token hmem
  distinct := by
    intro j k b c token p q hb hc hdb hdc
    obtain ⟨b', hb', hdb', -⟩ := hfollows.update j b _ hb hdb
    obtain ⟨c', hc', hdc', -⟩ := hfollows.update k c _ hc hdc
    exact hs.distinct j k b' c' token p q hb' hc' hdb' hdc'
  unrecorded := by
    intro j b token prior hb hdb
    obtain ⟨b', hb', hdb', -⟩ := hfollows.update j b _ hb hdb
    exact hs.unrecorded j b' token prior hb' hdb'
  repairs := hs.repairs
  stacked := by
    intro h
    obtain ⟨stack, hstack⟩ := hs.stacked h
    exact ⟨stack, hstack.follow rfl rfl (fun _ h => h) hfollows.update⟩

/-- A call goes on with the token it has drawn. -/
theorem Inv.advance (hs : Inv id s) {a b : Adoption} (ha : s.adoptions i = some a) (hdrawn : b.drawn = a.drawn)
    (hpending : b.Pending → a.Pending) (htokens : b.tokens = a.tokens) : Inv id (s.setAdoption i (some b)) := by
  refine hs.setAdoption ?_ ?_
  · intro b' m hb hm
    cases hb
    exact ⟨a, ha, hdrawn ▸ hm, hpending⟩
  · intro b' hb
    cases hb
    rw [htokens]
    exact hs.tokens i a ha

theorem Inv.drop (hs : Inv id s) : Inv id (s.setAdoption i none) := by
  refine hs.setAdoption Follows.none ?_
  intro b hb
  cases hb

theorem Inv.setRepair (hs : Inv id s) {j : ℕ} {r : Option Repair} (h : ∀ q, r = some q → s.record = some q.recordedToken) :
    Inv id (s.setRepair j r) where
  apart := hs.apart
  nonempty := hs.nonempty
  own := hs.own
  record := hs.record
  tokens := hs.tokens
  distinct := hs.distinct
  unrecorded := hs.unrecorded
  repairs := by
    intro k q hq
    by_cases hk : k = j
    · subst hk
      exact h q (by simpa [State.setRepair] using hq)
    · exact hs.repairs k q (by simpa [State.setRepair, Function.update_of_ne hk] using hq)
  stacked := by
    intro h
    obtain ⟨stack, hstack⟩ := hs.stacked h
    exact ⟨stack, hstack.follow rfl rfl (fun _ h => h) fun j => Follows.refl _⟩

/-! ### A token is drawn, and its marker written -/

variable {token : String} {prior : Option String} {b : Adoption}

theorem Inv.undrawn (hs : Inv id s) (hfresh : token ∉ s.mine) {j : ℕ} {a : Adoption} {q : Option String}
    (ha : s.adoptions j = some a) : a.drawn ≠ some (token, q) :=
  fun h => hfresh (hs.tokens j a ha token (Adoption.mem_tokens h).1)

/-- The call `i` has drawn `token`. -/
structure Draws (s : State) (i : ℕ) (token : String) (prior : Option String) (b : Adoption) (s' : State) : Prop where
  writing : s.adoptions i = some (.writing prior)
  fresh : token ≠ "" ∧ token ∉ s.mine ∧ token ∉ s.theirs
  drawn : b.drawn = some (token, prior)
  tokens : b.tokens = token :: prior.toList
  mine : s'.mine = token :: s.mine
  theirs : s'.theirs = s.theirs
  record : s'.record = s.record
  repairs : s'.repairs = s.repairs
  replaced : s'.replaced = s.replaced
  self : s'.adoptions i = some b
  other : ∀ j, j ≠ i → s'.adoptions j = s.adoptions j

variable {s' : State}

theorem Inv.draw (hs : Inv id s) (h : Draws s i token prior b s')
    (hown : ∀ t, readAdminMarker s'.marker = .token t (some id) → t ∈ s'.mine)
    (hstacked : s.replaced = false → ∃ stack, Stacked id s' stack) : Inv id s' where
  apart := by
    rw [h.mine, h.theirs]
    intro t ht
    rcases List.mem_cons.1 ht with rfl | ht
    · exact h.fresh.2.2
    · exact hs.apart t ht
  nonempty := by
    rw [h.mine]
    intro t ht
    rcases List.mem_cons.1 ht with rfl | ht
    · exact h.fresh.1
    · exact hs.nonempty t ht
  own := hown
  record := by
    rw [h.mine, h.record]
    exact fun t ht => List.mem_cons_of_mem _ (hs.record t ht)
  tokens := by
    rw [h.mine]
    intro j a ha t ht
    by_cases hj : j = i
    · subst hj
      cases h.self.symm.trans ha
      rw [h.tokens] at ht
      rcases List.mem_cons.1 ht with rfl | ht
      · exact List.mem_cons_self
      · exact List.mem_cons_of_mem _ (hs.tokens j _ h.writing t ht)
    · exact List.mem_cons_of_mem _ (hs.tokens j a (h.other j hj ▸ ha) t ht)
  distinct := by
    intro j k a c t p q ha hc hda hdc
    by_cases hj : j = i
    · by_cases hk : k = i
      · rw [hj, hk]
      · subst hj
        cases h.self.symm.trans ha
        cases h.drawn.symm.trans hda
        exact absurd hdc (hs.undrawn h.fresh.2.1 (h.other k hk ▸ hc))
    · by_cases hk : k = i
      · subst hk
        cases h.self.symm.trans hc
        cases h.drawn.symm.trans hdc
        exact absurd hda (hs.undrawn h.fresh.2.1 (h.other j hj ▸ ha))
      · exact hs.distinct j k a c t p q (h.other j hj ▸ ha) (h.other k hk ▸ hc) hda hdc
  unrecorded := by
    rw [h.record]
    intro j a t p ha hda
    by_cases hj : j = i
    · subst hj
      cases h.self.symm.trans ha
      cases h.drawn.symm.trans hda
      exact fun hrec => h.fresh.2.1 (hs.record _ hrec)
    · exact hs.unrecorded j a t p (h.other j hj ▸ ha) hda
  repairs := by
    rw [h.record, h.repairs]
    exact hs.repairs
  stacked := by
    rw [h.replaced]
    exact hstacked

/-- The marker could not be written. -/
theorem Stacked.unwritten {stack : List String} (hstack : Stacked id s stack) (h : Draws s i token prior b s')
    (hmarker : s'.marker = s.marker) (hpending : ¬b.Pending) : Stacked id s' stack where
  nodup := hstack.nodup
  mine := by
    rw [h.mine]
    exact fun t ht => List.mem_cons_of_mem _ (hstack.mine t ht)
  top := by
    rw [hmarker]
    exact hstack.top
  record := by
    rw [h.record]
    exact hstack.record
  pending := by
    rw [h.record]
    intro j a t p ha hda hpend hnone
    by_cases hj : j = i
    · subst hj
      cases h.self.symm.trans ha
      exact absurd hpend hpending
    · exact hstack.pending j a t p (h.other j hj ▸ ha) hda hpend hnone
  below := by
    intro j a t p ha hda hmem
    by_cases hj : j = i
    · subst hj
      cases h.self.symm.trans ha
      cases h.drawn.symm.trans hda
      exact absurd (hstack.mine _ hmem) h.fresh.2.1
    · exact hstack.below j a t p (h.other j hj ▸ ha) hda hmem

/-- The marker lies on the one that was to be written over. -/
theorem Stacked.push {stack : List String} (hstack : Stacked id s stack) (hs : Inv id s) (h : Draws s i token prior b s')
    (hmarker : s'.marker = stamp token id) (hprior : stack.head? = prior) : Stacked id s' (token :: stack) where
  nodup := List.nodup_cons.2 ⟨fun hmem => h.fresh.2.1 (hstack.mine _ hmem), hstack.nodup⟩
  mine := by
    rw [h.mine]
    intro t ht
    rcases List.mem_cons.1 ht with rfl | ht
    · exact List.mem_cons_self
    · exact List.mem_cons_of_mem _ (hstack.mine t ht)
  top := by
    rw [hmarker, readAdminMarker_stamp h.fresh.1]
    simp
  record := by
    rw [h.record]
    exact fun t ht => List.mem_cons_of_mem _ (hstack.record t ht)
  pending := by
    rw [h.record]
    intro j a t p ha hda hpend hnone
    by_cases hj : j = i
    · subst hj
      cases h.self.symm.trans ha
      cases h.drawn.symm.trans hda
      exact List.mem_cons_self
    · exact List.mem_cons_of_mem _ (hstack.pending j a t p (h.other j hj ▸ ha) hda hpend hnone)
  below := by
    intro j a t p ha hda hmem
    by_cases hj : j = i
    · subst hj
      cases h.self.symm.trans ha
      cases h.drawn.symm.trans hda
      exact ⟨[], stack, rfl, hprior⟩
    · have ha' := h.other j hj ▸ ha
      rcases List.mem_cons.1 hmem with rfl | hmem
      · exact absurd hda (hs.undrawn h.fresh.2.1 ha')
      · obtain ⟨above, rest, rfl, hrest⟩ := hstack.below j a t p ha' hda hmem
        exact ⟨token :: above, rest, rfl, hrest⟩

/-! ### A marker is taken off, a token recorded -/

theorem Stacked.head_eq {stack : List String} (hstack : Stacked id s stack)
    (hmarker : readAdminMarker s.marker = .token token (some id)) : ∃ rest, stack = token :: rest := by
  have hhead := (hstack.top token).1 hmarker
  cases stack with
  | nil => cases hhead
  | cons t rest =>
    cases hhead
    exact ⟨rest, rfl⟩

theorem readAdminMarker_restored (hprior : ∀ p, prior = some p → p ≠ "") (t : String) :
    readAdminMarker (prior.bind (stamp · id)) = .token t (some id) ↔ prior = some t := by
  cases prior with
  | none => simp [readAdminMarker]
  | some p => simp [readAdminMarker_stamp (hprior p rfl)]

section Undo

variable (hs : Inv id s) (ha : s.adoptions i = some (.undoing token prior))

include hs ha

theorem Inv.prior_mine : ∀ p, prior = some p → p ∈ s.mine :=
  fun p hp => hs.tokens i _ ha p ((Adoption.mem_tokens rfl).2 p hp)

theorem Inv.undo_ne {j : ℕ} {a : Adoption} {t : String} {p : Option String} (hj : s.adoptions j = some a)
    (hdrawn : a.drawn = some (t, p)) (hne : j ≠ i) : t ≠ token := by
  rintro rfl
  exact hne (hs.distinct j i a _ t p prior hj ha hdrawn rfl)

theorem Stacked.pop {rest : List String} (hstack : Stacked id s (token :: rest)) :
    Stacked id ({ s with marker := prior.bind (stamp · id) }.setAdoption i none) rest := by
  have hother : ∀ {j a}, Function.update s.adoptions i none j = some a → j ≠ i ∧ s.adoptions j = some a := by
    intro j a h
    by_cases hj : j = i
    · subst hj
      simp at h
    · exact ⟨hj, by rwa [Function.update_of_ne hj] at h⟩
  refine ⟨hstack.nodup.of_cons, fun t ht => hstack.mine t (List.mem_cons_of_mem _ ht), ?_, ?_, ?_, ?_⟩
  · intro t
    obtain ⟨above, rest', heq, hprior⟩ := hstack.below i _ token prior ha rfl List.mem_cons_self
    have habove : above = [] := by
      cases above with
      | nil => rfl
      | cons t' above =>
        -- the token would lie on the stack twice
        obtain ⟨rfl, rfl⟩ := List.cons_eq_cons.1 heq
        exact absurd hstack.nodup (by simp)
    subst habove
    obtain ⟨-, rfl⟩ := List.cons_eq_cons.1 heq
    rw [hprior]
    exact readAdminMarker_restored (fun p hp => hs.nonempty p (hs.prior_mine ha p hp)) t
  · intro t ht
    rcases List.mem_cons.1 (hstack.record t ht) with rfl | hmem
    · exact absurd ht (hs.unrecorded i _ t prior ha rfl)
    · exact hmem
  · intro j a t p hj hdrawn hpend hnone
    obtain ⟨hne, hj⟩ := hother hj
    rcases List.mem_cons.1 (hstack.pending j a t p hj hdrawn hpend hnone) with h | hmem
    · exact absurd h (hs.undo_ne ha hj hdrawn hne)
    · exact hmem
  · intro j a t p hj hdrawn hmem
    obtain ⟨hne, hj⟩ := hother hj
    obtain ⟨above, rest', heq, hrest⟩ := hstack.below j a t p hj hdrawn (List.mem_cons_of_mem _ hmem)
    cases above with
    | nil => exact absurd (List.cons_eq_cons.1 heq).1.symm (hs.undo_ne ha hj hdrawn hne)
    | cons t' above => exact ⟨above, rest', (List.cons_eq_cons.1 heq).2, hrest⟩

theorem Inv.undo (hmarker : readAdminMarker s.marker = .token token (some id)) :
    Inv id ({ s with marker := prior.bind (stamp · id) }.setAdoption i none) := by
  have hdrop := hs.drop (i := i)
  refine ⟨hdrop.apart, hdrop.nonempty, ?_, hdrop.record, hdrop.tokens, hdrop.distinct, hdrop.unrecorded, hdrop.repairs, ?_⟩
  · intro t ht
    have hprior := (readAdminMarker_restored (fun p hp => hs.nonempty p (hs.prior_mine ha p hp)) t).1 ht
    exact hs.prior_mine ha t hprior
  · intro hreplaced
    obtain ⟨stack, hstack⟩ := hs.stacked hreplaced
    obtain ⟨rest, rfl⟩ := hstack.head_eq hmarker
    exact ⟨rest, hstack.pop hs ha⟩

end Undo

theorem Inv.granted (hs : Inv id s) (ha : s.adoptions i = some (.recording token prior)) (hnone : s.record = none) :
    Inv id ({ s with record := some token }.setAdoption i none) := by
  have hdrop := hs.drop (i := i)
  refine ⟨hdrop.apart, hdrop.nonempty, hdrop.own, ?_, hdrop.tokens, hdrop.distinct, ?_, ?_, ?_⟩
  · rintro t ⟨⟩
    exact hs.tokens i _ ha token (Adoption.mem_tokens rfl).1
  · rintro j a t p hj hdrawn ⟨⟩
    by_cases hne : j = i
    · subst hne
      simp [State.setAdoption] at hj
    · have hj' : s.adoptions j = some a := by simpa [State.setAdoption, Function.update_of_ne hne] using hj
      exact hne (hs.distinct j i a _ token p prior hj' ha hdrawn rfl)
  · intro j r hr
    have := hs.repairs j r hr
    rw [hnone] at this
    cases this
  · intro hreplaced
    obtain ⟨stack, hstack⟩ := hs.stacked hreplaced
    have hfollow : Stacked id (s.setAdoption i none) stack := hstack.follow rfl rfl (fun _ h => h) (Follows.none.update)
    refine ⟨stack, hfollow.nodup, hfollow.mine, hfollow.top, ?_, ?_, hfollow.below⟩
    · rintro t ⟨⟩
      exact hstack.pending i _ token prior ha rfl trivial hnone
    · intro j a t p _ _ _ h
      cases h

theorem Inv.rewrite (hs : Inv id s) {j : ℕ} (hrecord : s.record = some token) :
    Inv id ({ s with marker := stamp token id }.setRepair j (some (.confirming token))) := by
  have hset : Inv id (s.setRepair j (some (.confirming token))) := hs.setRepair (by rintro q ⟨⟩; exact hrecord)
  have hmine := hs.record token hrecord
  have hreading := readAdminMarker_stamp (hs.nonempty token hmine) id
  refine ⟨hset.apart, hset.nonempty, ?_, hset.record, hset.tokens, hset.distinct, hset.unrecorded, hset.repairs, ?_⟩
  · intro t ht
    cases hreading.symm.trans ht
    exact hmine
  · intro _
    refine ⟨[token], by simp, ?_, ?_, ?_, ?_, ?_⟩
    · intro t ht
      rw [List.mem_singleton.1 ht]
      exact hmine
    · intro t
      change readAdminMarker (stamp token id) = _ ↔ _
      rw [hreading]
      simp
    · intro t ht
      cases hrecord.symm.trans ht
      exact List.mem_cons_self
    · intro k a t p _ _ _ hnone
      cases hrecord.symm.trans hnone
    · intro k a t p hk hdrawn hmem
      rw [List.mem_singleton.1 hmem] at hdrawn
      exact absurd hrecord (hs.unrecorded k a token p hk hdrawn)

end Keeping

/-! ### Runs -/

variable {id : String} {s : State}

theorem look_token {ok : Bool} {token : String} {adoptedBy : Option String} (h : s.look ok = .token token adoptedBy) :
    readAdminMarker s.marker = .token token adoptedBy := by
  cases ok with
  | true => exact h
  | false => cases h

/-- The call goes on to write only over a marker of the session. -/
theorem priorMarker_eq_some {recorded : List String} {m : MarkerReading} {prior : Option String} {token : String}
    (h : priorMarker id recorded m = some prior) (ht : prior = some token) : m = .token token (some id) := by
  subst ht
  cases m with
  | token t adoptedBy =>
    simp only [priorMarker] at h
    split at h
    · rename_i hown
      cases h
      rw [hown.1]
    · cases h
  | none => cases h
  | unreadable => cases h

theorem inv_write (hs : Inv id s) {i : ℕ} {token : String} {ok : Bool} (hc : Unraced id s (.write i token ok)) :
    Inv id (step id s (.write i token ok)).1 := by
  simp only [step]
  split
  · rename_i prior ha
    split
    · rename_i hfresh
      split
      · rename_i hok
        have hdraws : Draws s i token prior (.confirming token prior)
            ({ s with mine := token :: s.mine, marker := stamp token id }.setAdoption i (some (.confirming token prior))) :=
          ⟨ha, hfresh, rfl, rfl, rfl, rfl, rfl, rfl, rfl, Function.update_self .., fun j hj => Function.update_of_ne hj ..⟩
        refine hs.draw hdraws ?_ ?_
        · intro t ht
          cases (readAdminMarker_stamp hfresh.1 id).symm.trans ht
          exact List.mem_cons_self
        · intro hreplaced
          obtain ⟨stack, hstack⟩ := hs.stacked hreplaced
          refine ⟨token :: stack, hstack.push hs hdraws rfl ?_⟩
          cases prior with
          | some p =>
            simp only [Unraced, ha] at hc
            exact (hstack.top p).1 (hc hok.1)
          | none =>
            -- an exclusive write finds no marker, so the stack is empty
            cases hhead : stack.head? with
            | none => rfl
            | some t =>
              have := (hstack.top t).2 hhead
              rw [hok.2 rfl] at this
              cases this
      · have hdraws : Draws s i token prior (.settling token prior)
            ({ s with mine := token :: s.mine }.setAdoption i (some (.settling token prior))) :=
          ⟨ha, hfresh, rfl, rfl, rfl, rfl, rfl, rfl, rfl, Function.update_self .., fun j hj => Function.update_of_ne hj ..⟩
        refine hs.draw hdraws ?_ ?_
        · exact fun t ht => List.mem_cons_of_mem _ (hs.own t ht)
        · intro hreplaced
          obtain ⟨stack, hstack⟩ := hs.stacked hreplaced
          exact ⟨stack, hstack.unwritten hdraws rfl fun h => h⟩
    · exact hs
  · exact hs

theorem inv_foreign (hs : Inv id s) {other : String} {token : Option String}
    (hc : Unraced id s (.foreign other token)) : Inv id (step id s (.foreign other token)).1 := by
  simp only [step]
  split
  · rename_i hforeign
    obtain ⟨hother, htoken⟩ := hforeign
    have hreading : ∀ t, readAdminMarker (token.bind (stamp · other)) ≠ .token t (some id) := by
      intro t ht
      cases token with
      | none => cases ht
      | some p =>
        cases (readAdminMarker_stamp (htoken p rfl).1 other).symm.trans ht
        exact hother rfl
    refine ⟨?_, hs.nonempty, fun t ht => absurd ht (hreading t), hs.record, hs.tokens, hs.distinct, hs.unrecorded, hs.repairs, ?_⟩
    · intro t ht hmem
      rcases List.mem_append.1 hmem with h | h
      · exact (htoken t (Option.mem_toList.1 h)).2 ht
      · exact hs.apart t ht h
    · intro hreplaced
      obtain ⟨stack, hstack⟩ := hs.stacked hreplaced
      have hnil : stack = [] := by
        cases stack with
        | nil => rfl
        | cons t rest => exact absurd (adopter_eq_some.2 ⟨t, (hstack.top t).2 rfl⟩) hc
      subst hnil
      refine ⟨[], hstack.nodup, hstack.mine, ?_, hstack.record, hstack.pending, hstack.below⟩
      intro t
      constructor
      · exact fun ht => absurd ht (hreading t)
      · intro ht
        cases ht
  · exact hs

theorem inv_step (hs : Inv id s) (e : Event) (hc : Unraced id s e) : Inv id (step id s e).1 := by
  cases e with
  | adopt i session claimants live resolved others =>
    simp only [step]
    split
    · refine hs.setAdoption (Follows.of_undrawn rfl) ?_
      rintro b ⟨⟩ t ht
      cases ht
    · exact hs
  | read i ok =>
    simp only [step]
    split
    · rename_i recorded ha
      refine hs.setAdoption ?_ ?_
      · intro b m hb hm
        obtain ⟨prior, -, rfl⟩ := Option.map_eq_some_iff.1 hb
        cases hm
      · intro b hb t ht
        obtain ⟨prior, hprior, rfl⟩ := Option.map_eq_some_iff.1 hb
        exact hs.own t (look_token (priorMarker_eq_some hprior (Option.mem_toList.1 ht)))
    · exact hs
  | write i token ok => exact inv_write hs hc
  | readBack i ok =>
    simp only [step]
    split
    · rename_i token prior ha
      split
      · exact hs.advance ha rfl (fun _ => trivial) rfl
      · exact hs.advance ha rfl (fun _ => trivial) rfl
    · exact hs
  | record i outcome =>
    simp only [step]
    split
    · rename_i token prior ha
      split
      · rename_i h
        exact hs.granted ha h.2
      · split
        · rename_i h
          obtain ⟨rfl, hnone⟩ := h
          simp only [Unraced, ha] at hc
          exact absurd hnone hc
        · exact hs.advance ha rfl (fun _ => trivial) rfl
    · exact hs
  | settle i ok =>
    simp only [step]
    split
    · rename_i token prior ha
      split
      · exact hs.advance ha rfl (fun h => h) rfl
      · exact hs.drop
    · exact hs
  | undo i ok =>
    simp only [step]
    split
    · rename_i token prior ha
      split
      · rename_i hok
        simp only [Unraced, ha] at hc
        exact hs.undo ha (hc hok)
      · exact hs.drop
    · exact hs
  | reconcile j recordedToken resolved =>
    simp only [step]
    split
    · split
      · split
        · rename_i h
          refine hs.setRepair ?_
          rintro q ⟨⟩
          exact h.1
        · exact hs
      · exact hs
    · exact hs
  | inspect j ok =>
    have hdrop : Inv id (s.setRepair j none) := by
      refine hs.setRepair ?_
      intro q hq
      cases hq
    simp only [step]
    split
    · rename_i recordedToken hr
      split
      · split
        · exact hdrop
        · split
          · refine hs.setRepair ?_
            rintro q ⟨⟩
            exact hs.repairs j (.reading recordedToken) hr
          · exact hdrop
      · exact hdrop
    · exact hs
  | rewrite j ok =>
    simp only [step]
    split
    · rename_i recordedToken hr
      split
      · exact hs.rewrite (hs.repairs j _ hr)
      · refine hs.setRepair ?_
        intro q hq
        cases hq
    · exact hs
  | confirm j ok =>
    simp only [step]
    split
    · refine hs.setRepair ?_
      intro q hq
      cases hq
    · exact hs
  | crashAdoption i => exact hs.drop
  | crashRepair j =>
    refine hs.setRepair ?_
    intro q hq
    cases hq
  | replace =>
    refine ⟨hs.apart, hs.nonempty, ?_, hs.record, hs.tokens, hs.distinct, hs.unrecorded, hs.repairs, ?_⟩
    · intro t ht
      cases ht
    · intro h
      cases h
  | create token =>
    simp only [step]
    split
    · rename_i h
      obtain ⟨hreplaced, hne, hmine⟩ := h
      refine ⟨?_, hs.nonempty, ?_, hs.record, hs.tokens, hs.distinct, hs.unrecorded, hs.repairs, ?_⟩
      · intro t ht hmem
        rcases List.mem_cons.1 hmem with rfl | hmem
        · exact hmine ht
        · exact hs.apart t ht hmem
      · intro t ht
        cases (readAdminMarker_creationMarker hne).symm.trans ht
      · intro h
        cases hreplaced.symm.trans h
    · exact hs
  | foreign other token => exact inv_foreign hs hc

/-! ### The next reuse of the session -/

theorem reconciles {token : String} {j : ℕ} (hs : Inv id s) (hrecord : s.record = some token) (hj : s.repairs j = none)
    (hown : adopter (readAdminMarker s.marker) = some id) :
    (Run.outputs (step id) s (reconciling j token)).reduceOption = [true] ∧
      Agree id (Run.final (step id) s (reconciling j token)) token := by
  obtain ⟨present, hmarker⟩ := adopter_eq_some.1 hown
  have hstamp := readAdminMarker_stamp (hs.nonempty token (hs.record token hrecord)) id
  by_cases hsame : present = token
  · subst hsame
    simp [reconciling, Run.outputs, Run.final, step, hj, hrecord, State.setRepair, State.look, hmarker, Agree]
  · simp [reconciling, Run.outputs, Run.final, step, hj, hrecord, State.setRepair, State.look, hmarker, Agree, hsame, hstamp,
      readWorktreeOwnerToken]

theorem adopts_writing {i : ℕ} {prior : Option String} {token : String} (hi : s.adoptions i = some (.writing prior))
    (hrecord : s.record = none) (htoken : token ≠ "" ∧ token ∉ s.mine ∧ token ∉ s.theirs)
    (hprior : prior = none → s.marker = none) :
    Agree id (Run.final (step id) s [.write i token true, .readBack i true, .record i .granted]) token := by
  have hwrite : (step id s (.write i token true)).1 =
      ({ s with mine := token :: s.mine, marker := stamp token id }.setAdoption i (some (.confirming token prior))) := by
    simp only [step, hi, if_pos htoken]
    rw [if_pos ⟨trivial, hprior⟩]
  rw [Run.final_cons, hwrite]
  simp [Run.final, step, State.setAdoption, State.look, readAdminMarker_stamp htoken.1, readWorktreeOwnerToken, hrecord, Agree]

theorem step_read {i : ℕ} {recorded : List String} (hi : s.adoptions i = some (.reading recorded)) (ok : Bool) :
    (step id s (.read i ok)).1 = s.setAdoption i ((priorMarker id recorded (s.look ok)).map .writing) := by
  simp only [step, hi]

/-- An adoption takes an absent marker, or a marker of the session that no session records. -/
theorem adopts {i : ℕ} {session : SessionMetadata} {others : List String} {token : String} (hs : Inv id s)
    (hrecord : s.record = none) (hi : s.adoptions i = none) (hsession : adoptable session 1 true true)
    (hothers : ∀ t ∈ others, t ∈ s.theirs) (htoken : token ≠ "" ∧ token ∉ s.mine ∧ token ∉ s.theirs)
    (hmarker : adopter (readAdminMarker s.marker) = some id ∨ s.marker = none) :
    Agree id (Run.final (step id) s (adopting i session others token)) token := by
  obtain ⟨prior, hprior, hfresh⟩ : ∃ prior, priorMarker id others (readAdminMarker s.marker) = some prior ∧
      (prior = none → s.marker = none) := by
    rcases hmarker with hown | habsent
    · obtain ⟨present, hpresent⟩ := adopter_eq_some.1 hown
      have hstrand : present ∉ others := fun h => hs.apart present (hs.own present hpresent) (hothers present h)
      exact ⟨some present, by simp [hpresent, priorMarker, hstrand], nofun⟩
    · exact ⟨none, by simp [habsent, readAdminMarker, priorMarker], fun _ => habsent⟩
  have hadopt : (step id s (.adopt i session 1 true true others)).1 = s.setAdoption i (some (.reading others)) := by
    simp only [step, if_pos (And.intro hi (And.intro hsession hothers)), hrecord, Option.toList_none, List.nil_append]
  have hread : (step id (s.setAdoption i (some (.reading others))) (.read i true)).1 =
      (s.setAdoption i (some (.reading others))).setAdoption i (some (.writing prior)) := by
    have hlook : (s.setAdoption i (some (.reading others))).look true = readAdminMarker s.marker := rfl
    rw [step_read (Function.update_self ..), hlook, hprior]
    rfl
  rw [adopting, Run.final_cons, hadopt, Run.final_cons, hread]
  exact adopts_writing (by simp [State.setAdoption]) hrecord htoken hfresh

theorem Inv.recoverable (hs : Inv id s) : Recoverable id s := by
  intro hdone hmarker
  unfold Recovers
  split
  · rename_i token hrecord
    intro j hj
    rcases hmarker with hown | ⟨habsent, hreplaced⟩
    · exact reconciles hs hrecord hj hown
    · -- a recorded token lies on the stack, so its marker is there
      have hkept : s.replaced = false := by
        by_contra h
        rw [hreplaced (by simpa using h)] at hrecord
        cases hrecord
      obtain ⟨stack, hstack⟩ := hs.stacked hkept
      have hmem := hstack.record token hrecord
      cases stack with
      | nil => cases hmem
      | cons t rest =>
        have htop := (hstack.top t).2 rfl
        rw [habsent] at htop
        cases htop
  · rename_i hrecord
    intro i session others token hsession hothers hne hmine htheirs
    exact adopts hs hrecord (hdone i) hsession hothers ⟨hne, hmine, htheirs⟩ (hmarker.imp_right And.left)

theorem Foreign.not_own {m : MarkerReading} (h : Foreign id m) : adopter m ≠ some id := by
  cases m with
  | token t b => exact h
  | none => cases h
  | unreadable => cases h

theorem spares_of_unraced (e : Event) (hc : Unraced id s e) : Spares id s e := by
  refine ⟨?_, ?_⟩
  · intro hown hforeign
    have hnot := hforeign.not_own
    cases e with
    | write i token ok =>
      simp only [step]
      split
      · rename_i prior ha
        split
        · split
          · rename_i hok
            exfalso
            cases prior with
            | some p =>
              simp only [Unraced, ha] at hc
              exact hnot (adopter_eq_some.2 ⟨p, hc hok.1⟩)
            | none =>
              rw [hok.2 rfl] at hforeign
              exact hforeign
          · rfl
        · rfl
      · rfl
    | undo i ok =>
      simp only [step]
      split
      · rename_i token prior ha
        split
        · rename_i hok
          simp only [Unraced, ha] at hc
          exact absurd (adopter_eq_some.2 ⟨token, hc hok⟩) hnot
        · rfl
      · rfl
    | rewrite j ok =>
      simp only [step]
      split
      · rename_i token hr
        split
        · rename_i hok
          simp only [Unraced, hr] at hc
          exact absurd (hc hok) hnot
        · rfl
      · rfl
    | replace | create token | foreign other token => cases hown
    | _ =>
      simp only [step]
      repeat' split
      all_goals rfl
  · intro token hrecord
    cases e with
    | record i outcome =>
      simp only [step]
      split
      · rw [if_neg (by simp [hrecord]), if_neg (by simp [hrecord])]
        exact hrecord
      · exact hrecord
    | _ =>
      simp only [step]
      repeat' split
      all_goals exact hrecord

/-- **Adoption never steals or strands an identity**, in every run in which each write over a marker, and each deletion, finds the
marker by which it was decided, and no compare-and-set rejects that has recorded. -/
theorem adoption_safe (id : String) (es : List Event) (h : Run.Along (step id) (Unraced id) init es) :
    Run.Along (step id) (Spares id) init es ∧ Run.Throughout (step id) (Recoverable id) init es := by
  have hinv : Run.Throughout (step id) (Inv id) init es :=
    @Run.throughout_of_along _ _ _ (step id) (Inv id) (Unraced id) (fun s e hc hs => inv_step hs e hc) init (inv_init id) es h
  refine ⟨?_, hinv.mono fun s hs => hs.recoverable⟩
  exact Run.along_mono (fun s e hc => spares_of_unraced e hc) h

/-! ### Two overlapping adoptions, and three -/

/-- The adoption that a step belongs to. -/
def Event.adoption : Event → Option ℕ
  | .adopt i .. | .read i _ | .write i _ _ | .readBack i _ | .record i _ | .settle i _ | .undo i _ | .crashAdoption i => some i
  | _ => none

theorem idle_of_unmentioned {i : ℕ} {es : List Event} (h : ∀ e ∈ es, e.adoption ≠ some i) :
    (Run.final (step id) init es).adoptions i = none := by
  refine Run.final_induction_along (P := fun s : State => s.adoptions i = none) (C := fun _ e => Event.adoption e ≠ some i) ?_ rfl
    (Run.along_of_forall h)
  intro s e hne hnone
  have hset : ∀ k a, some k ≠ some i → Function.update s.adoptions k a i = none := by
    intro k a hk
    rw [Function.update_of_ne (by rintro rfl; exact hk rfl)]
    exact hnone
  cases e with
  | adopt k | read k | write k | readBack k | record k | settle k | undo k | crashAdoption k =>
    simp only [step]
    repeat' split
    all_goals first | exact hset k _ hne | exact hnone
  | _ =>
    simp only [step]
    repeat' split
    all_goals exact hnone

/-- A session from before worktrees had tokens. -/
def legacySession : SessionMetadata := ⟨some "/repo/.worktrees/gateway/fix", none, false, false⟩

/-- The second adoption takes the marker of the first for a strand, and puts it back when the first has recorded. -/
def twoAdoptions : List Event :=
  [.adopt 1 legacySession 1 true true [], .adopt 2 legacySession 1 true true [], .read 1 true, .write 1 "t1" true,
    .readBack 1 true, .read 2 true, .write 2 "t2" true, .record 1 .granted, .readBack 2 true, .record 2 .granted,
    .settle 2 true, .undo 2 true]

theorem adoption_safe_two :
    Run.Along (step "session") (Spares "session") init twoAdoptions ∧
      Run.Throughout (step "session") (Recoverable "session") init twoAdoptions :=
  adoption_safe "session" twoAdoptions (by decide +kernel)

/-- The third adoption reads the marker of the first before the second writes over it.  It puts that marker back under the first,
which takes it off, and the record of the second is left without one. -/
def threeAdoptions : List Event :=
  [.adopt 1 legacySession 1 true true [], .adopt 2 legacySession 1 true true [], .adopt 3 legacySession 1 true true [],
    .read 1 true, .write 1 "t1" true, .readBack 1 true, .read 2 true, .read 3 true, .write 2 "t2" true, .readBack 2 true,
    .record 2 .granted, .write 3 "t3" true, .readBack 3 true, .record 3 .granted, .settle 3 true, .undo 3 true,
    .record 1 .granted, .settle 1 true, .undo 1 true]

theorem not_adoption_safe :
    ¬(Run.Along (step "session") (Spares "session") init threeAdoptions ∧
      Run.Throughout (step "session") (Recoverable "session") init threeAdoptions) := by
  rintro ⟨-, h⟩
  have hrecover := Run.throughout_iff.1 h threeAdoptions [] (List.append_nil _).symm
  have hdone : ∀ i, (Run.final (step "session") init threeAdoptions).adoptions i = none := by
    intro i
    by_cases hi : i = 1 ∨ i = 2 ∨ i = 3
    · rcases hi with rfl | rfl | rfl <;> decide +kernel
    · refine idle_of_unmentioned ?_
      simp only [not_or] at hi
      simp [threeAdoptions, Event.adoption, Ne.symm hi.1, Ne.symm hi.2.1, Ne.symm hi.2.2]
  have hmarker : (Run.final (step "session") init threeAdoptions).marker.isNone := by decide +kernel
  have hreplaced : (Run.final (step "session") init threeAdoptions).replaced = false := by decide +kernel
  have hrecord : (Run.final (step "session") init threeAdoptions).record = some "t2" := by decide +kernel
  have hrecovers := hrecover hdone (.inr ⟨Option.isNone_iff_eq_none.1 hmarker, by simp [hreplaced]⟩)
  simp only [Recovers, hrecord] at hrecovers
  have hanswer := (hrecovers 1 (by decide +kernel)).1
  have hno : (Run.outputs (step "session") (Run.final (step "session") init threeAdoptions) (reconciling 1 "t2")).reduceOption =
      [false] := by decide +kernel
  rw [hno] at hanswer
  cases hanswer

end LlmGateway.Worktrees
