-- When an entry leaves the weak table. The test for an empty entry reads the
-- four inline words of the union. Out of line these are the address of the table
-- and its sizes, so an entry that ever grew stays after its last variable.
import ObjcRuntime.WeakTable

open objc_runtime.probing

namespace objc_runtime.weak

variable {α β : Type} {hash_pointer : α → Nat} {w_hash_pointer : β → Nat}

/-! ## The test for an empty entry -/

def Referrers.isInline : Referrers β → Bool
  | .inline _ => true
  | .outOfLine _ => false

/-- The test is passed by an inline entry that holds nothing, and by no other. -/
theorem entryIsEmpty_iff {referrers : Referrers β} (g : referrers.Good w_hash_pointer) :
    entryIsEmpty referrers = true ↔ referrers.isInline = true ∧ referrers.locations = [] := by
  constructor
  · intro h
    refine ⟨?_, locations_of_entryIsEmpty g h⟩
    cases referrers with
    | inline => rfl
    | outOfLine t => simp [entryIsEmpty, inlineWordIsNil, WEAK_INLINE_COUNT, List.range_succ] at h
  · rintro ⟨hinline, hnone⟩
    cases referrers with
    | outOfLine t => simp [Referrers.isInline] at hinline
    | inline slots =>
      simp only [entryIsEmpty, Bool.not_false, Bool.true_and, List.all_eq_true, inlineWordIsNil]
      intro i _
      cases hslot : slot slots i with
      | none => rfl
      | some l =>
        have hmem : l ∈ (Referrers.inline slots).locations :=
          mem_occupied.mpr ⟨i, slot_eq_some.mp hslot⟩
        simp [hnone] at hmem

theorem remove_referrer_isInline [DecidableEq β] {referrers referrers' : Referrers β} {l : β}
    (h : remove_referrer w_hash_pointer referrers l = .ok referrers') :
    referrers'.isInline = referrers.isInline := by
  cases referrers with
  | inline slots =>
    simp only [remove_referrer] at h
    split at h
    all_goals rw [← Except.ok.inj h]
    all_goals rfl
  | outOfLine t =>
    simp only [remove_referrer] at h
    split at h
    all_goals simp only [reduceCtorEq, Except.ok.injEq] at h
    all_goals subst h
    all_goals rfl

/-! ## The objects with an entry -/

variable [DecidableEq α] {t : weak_table_t α β} {registered : β → Option α}

/-- The table has an entry for the object (`weak_is_registered_no_lock`). -/
def HasEntry (hash_pointer : α → Nat) (t : weak_table_t α β) (r : α) : Prop :=
  ∃ entry, weak_entry_for_referent hash_pointer t r = .ok (some entry)

/-- The entry for the object is inline. -/
def InlineEntry (hash_pointer : α → Nat) (t : weak_table_t α β) (r : α) : Prop :=
  ∃ i e, weak_entry_for_referent hash_pointer t r = .ok (some (i, e)) ∧
    e.referrers.isInline = true

theorem hasEntry_iff (g : GoodTable hash_pointer w_hash_pointer t) (r : α) :
    HasEntry hash_pointer t r ↔ ∃ e ∈ occupied t.slots, e.referent = r := by
  constructor
  · rintro ⟨entry, hfind⟩
    by_contra hnone
    rw [g.notFound fun e he heq => hnone ⟨e, he, heq⟩] at hfind
    simp at hfind
  · rintro ⟨e, he, rfl⟩
    obtain ⟨-, i, hfind, -⟩ := g.found he
    exact ⟨_, hfind⟩

theorem inlineEntry_iff (g : GoodTable hash_pointer w_hash_pointer t) {e : weak_entry_t α β}
    (he : e ∈ occupied t.slots) :
    InlineEntry hash_pointer t e.referent ↔ e.referrers.isInline = true := by
  obtain ⟨-, i, hfind, -⟩ := g.found he
  constructor
  · rintro ⟨j, e', hfind', hinline⟩
    rw [hfind] at hfind'
    simp only [Except.ok.injEq, Option.some.injEq, Prod.mk.injEq] at hfind'
    rw [hfind'.2]
    exact hinline
  · intro hinline
    exact ⟨i, e, hfind, hinline⟩

/-- The entries after a clear. -/
theorem GoodTable.clear [DecidableEq β] (g : GoodTable hash_pointer w_hash_pointer t) (r : α)
    (memory : β → Option α) :
    ∃ t' memory', weak_clear_no_lock hash_pointer t r memory = .ok (t', memory') ∧
      GoodTable hash_pointer w_hash_pointer t' ∧
      ∀ r', HasEntry hash_pointer t' r' ↔ r' ≠ r ∧ HasEntry hash_pointer t r' := by
  by_cases hr : ∃ e ∈ occupied t.slots, e.referent = r
  · obtain ⟨e, he, rfl⟩ := hr
    obtain ⟨hroomy, i, hfind, hslot⟩ := g.found he
    obtain ⟨rest, hperm, -⟩ := occupied_split hslot
    obtain ⟨t', hrun, hgood, hall⟩ := weak_entry_remove_good g hroomy hslot hperm
    refine ⟨t', _, by simp [weak_clear_no_lock, hfind, hrun]; rfl, hgood, fun r' => ?_⟩
    rw [hasEntry_iff hgood, hasEntry_iff g, exists_mem_of_perm_cons hperm]
    have hne := hroomy.other_referents hperm
    simp only [hall.mem_iff]
    constructor
    · rintro ⟨e', he', rfl⟩
      exact ⟨hne e' he', .inr ⟨e', he', rfl⟩⟩
    · rintro ⟨hr', rfl | hrest⟩
      · exact absurd rfl hr'
      · exact hrest
  · have hnone : ∀ e ∈ occupied t.slots, e.referent ≠ r := fun e he heq => hr ⟨e, he, heq⟩
    refine ⟨t, memory, by simp [weak_clear_no_lock, g.notFound hnone], g, fun r' => ?_⟩
    rw [hasEntry_iff g]
    constructor
    · rintro ⟨e, he, rfl⟩
      exact ⟨hnone e he, e, he, rfl⟩
    · exact fun h => h.2

/-- A registration gives the object an entry. -/
theorem GoodTable.remember_hasEntry (g : GoodTable hash_pointer w_hash_pointer t) {l : β}
    (hl : ∀ e ∈ occupied t.slots, l ∉ e.referrers.locations) (r : α) {t' : weak_table_t α β}
    (hrun : rememberReferrer hash_pointer w_hash_pointer t r l = .ok t') (r' : α) :
    HasEntry hash_pointer t' r' ↔ r' = r ∨ HasEntry hash_pointer t r' := by
  obtain ⟨t₁, hrun₁, hgood, hentries⟩ := g.remember hl r
  obtain rfl : t₁ = t' := by
    rw [hrun, Except.ok.injEq] at hrun₁
    exact hrun₁.symm
  rw [hasEntry_iff hgood, hasEntry_iff g]
  rcases hentries with ⟨e, rest, referrers, rfl, hperm, -, hall⟩ | ⟨-, hall⟩
  · rw [exists_mem_of_perm_cons hperm, exists_mem_of_perm_cons hall]
    simp only [eq_comm (a := r')]
    grind
  · rw [exists_mem_of_perm_cons hall]
    simp only [new_entry]
    grind

/-- The entry of the object after an unregistration: it is there when a location is left,
and also when it is out of line. -/
theorem Represents.unregister_hasEntry [DecidableEq β]
    (h : Represents hash_pointer w_hash_pointer t registered) {r : α} {l : β}
    {t' : weak_table_t α β}
    (hrun : weak_unregister_no_lock hash_pointer w_hash_pointer t (some r) l = .ok t') :
    (∀ r', r' ≠ r → (HasEntry hash_pointer t' r' ↔ HasEntry hash_pointer t r')) ∧
      (HasEntry hash_pointer t r → (HasEntry hash_pointer t' r ↔
        (∃ l', withoutReferrer registered r l l' = some r) ∨ ¬ InlineEntry hash_pointer t r)) ∧
      (¬ HasEntry hash_pointer t r → ¬ HasEntry hash_pointer t' r) := by
  obtain ⟨t₁, hrun₁, h'⟩ := h.unregister r l
  obtain ⟨t₂, hrun₂, hgood, hentries⟩ := h.good.unregister r l
  obtain rfl : t₁ = t' := by
    rw [hrun, Except.ok.injEq] at hrun₁
    exact hrun₁.symm
  obtain rfl : t₂ = t₁ := by
    rw [hrun, Except.ok.injEq] at hrun₂
    exact hrun₂.symm
  rcases hentries with ⟨e, rest, referrers, rfl, hperm, hrem, hall⟩ | ⟨hnone, rfl⟩
  · have hne := h.good.other_referents hperm
    have he : e ∈ occupied t.slots := hperm.mem_iff.mpr List.mem_cons_self
    obtain ⟨referrers', hrem', hgood', -, -⟩ := remove_referrer_good (h.good.entries e he) l
    obtain rfl : referrers' = referrers := by
      rw [hrem, Except.ok.injEq] at hrem'
      exact hrem'.symm
    have hrest : ∀ r', r' ≠ e.referent → (HasEntry hash_pointer t₂ r' ↔
        ∃ e' ∈ rest, e'.referent = r') := by
      intro r' hr'
      rw [hasEntry_iff hgood]
      by_cases hempty : entryIsEmpty referrers' = true
      · rw [if_pos hempty] at hall
        simp only [hall.mem_iff]
      · rw [if_neg hempty] at hall
        rw [exists_mem_of_perm_cons hall]
        simp [Ne.symm hr']
    refine ⟨fun r' hr' => ?_, fun _ => ?_, fun hnot => absurd ((hasEntry_iff h.good _).mpr ⟨e, he, rfl⟩) hnot⟩
    · rw [hrest r' hr', hasEntry_iff h.good, exists_mem_of_perm_cons hperm]
      simp [Ne.symm hr']
    · rw [inlineEntry_iff h.good he, hasEntry_iff hgood]
      have hmap := fun l' => h'.map l' e.referent
      by_cases hempty : entryIsEmpty referrers' = true
      · rw [if_pos hempty] at hall
        have hinline := ((entryIsEmpty_iff hgood').mp hempty).1
        rw [remove_referrer_isInline hrem] at hinline
        simp only [hmap, hinline, hall.mem_iff, not_true_eq_false, or_false]
        constructor
        · rintro ⟨e', he', heq⟩
          exact absurd heq (hne e' he')
        · rintro ⟨l', e', he', heq, -⟩
          exact absurd heq (hne e' he')
      · rw [if_neg hempty] at hall
        refine iff_of_true ⟨_, hall.mem_iff.mpr List.mem_cons_self, rfl⟩ ?_
        rw [entryIsEmpty_iff hgood', remove_referrer_isInline hrem, not_and_or] at hempty
        rcases hempty with hout | hlocs
        · exact .inr hout
        · obtain ⟨l', hl'⟩ := List.exists_mem_of_ne_nil _ hlocs
          exact .inl ⟨l', (hmap l').mpr ⟨_, hall.mem_iff.mpr List.mem_cons_self, rfl, hl'⟩⟩
  · have hnot : ¬ HasEntry hash_pointer t₂ r := by
      rw [hasEntry_iff h.good]
      rintro ⟨e, he, heq⟩
      exact hnone e he heq
    exact ⟨fun _ _ => Iff.rfl, fun hr => absurd hr hnot, fun _ => hnot⟩

/-! ## Runs -/

/-- An object has an entry when a location is registered for it, and only then. -/
def Matches (hash_pointer : α → Nat) (t : weak_table_t α β) (registered : β → Option α) : Prop :=
  ∀ r, HasEntry hash_pointer t r ↔ ∃ l, registered l = some r

/-- The location is the only one that is registered for the object. -/
def LastLocation (registered : β → Option α) (r : α) (l : β) : Prop :=
  registered l = some r ∧ ∀ l', registered l' = some r → l' = l

/-- An operation that takes the last location of an object finds its entry inline. -/
def RemovesInline (hash_pointer : α → Nat) (t : weak_table_t α β) (registered : β → Option α) :
    TableOp α β → Prop
  | .unregister r l => LastLocation registered r l → InlineEntry hash_pointer t r
  | _ => True

variable [DecidableEq β]

theorem withoutReferrer_eq_some {r r' : α} {l l' : β} :
    withoutReferrer registered r l l' = some r' ↔
      registered l' = some r' ∧ ¬ (l' = l ∧ registered l = some r) := by
  unfold withoutReferrer
  by_cases hl : registered l = some r
  · rw [if_pos hl]
    by_cases hll : l' = l
    · subst hll
      simp [hl]
    · simp [hll]
  · simp [hl]

omit [DecidableEq β] in
theorem withoutReferent_eq_some {r r' : α} {l : β} :
    withoutReferent registered r l = some r' ↔ r' ≠ r ∧ registered l = some r' := by
  unfold withoutReferent
  by_cases hl : registered l = some r
  · rw [if_pos hl, hl]
    simp only [reduceCtorEq, Option.some.injEq, false_iff, not_and]
    exact fun hne heq => hne heq.symm
  · rw [if_neg hl]
    constructor
    · rintro hr
      refine ⟨?_, hr⟩
      rintro rfl
      exact hl hr
    · exact fun h => h.2

/-- A registration keeps the match. -/
theorem Matches.register (h : Represents hash_pointer w_hash_pointer t registered)
    (hmatch : Matches hash_pointer t registered) {r : α} {l : β} (hl : registered l = none)
    {t' : weak_table_t α β} (hrun : rememberReferrer hash_pointer w_hash_pointer t r l = .ok t') :
    Matches hash_pointer t' (Function.update registered l (some r)) := by
  intro r'
  rw [h.good.remember_hasEntry (h.nowhere hl) r hrun, hmatch]
  constructor
  · rintro (rfl | ⟨l', hl'⟩)
    · exact ⟨l, Function.update_self ..⟩
    · refine ⟨l', ?_⟩
      rw [Function.update_of_ne _, hl']
      rintro rfl
      simp [hl] at hl'
  · rintro ⟨l', hl'⟩
    by_cases hll : l' = l
    · subst hll
      rw [Function.update_self, Option.some.injEq] at hl'
      exact .inl hl'.symm
    · rw [Function.update_of_ne hll] at hl'
      exact .inr ⟨l', hl'⟩

/-- An unregistration keeps the match, unless it leaves an empty entry out of line. -/
theorem Matches.unregister (h : Represents hash_pointer w_hash_pointer t registered)
    (hmatch : Matches hash_pointer t registered) {r : α} {l : β} {t' : weak_table_t α β}
    (hrun : weak_unregister_no_lock hash_pointer w_hash_pointer t (some r) l = .ok t') :
    Matches hash_pointer t' (withoutReferrer registered r l) ↔
      (LastLocation registered r l → InlineEntry hash_pointer t r) := by
  obtain ⟨hothers, hthis, hnone⟩ := h.unregister_hasEntry hrun
  have hleft : ∀ r', r' ≠ r →
      ((∃ l', withoutReferrer registered r l l' = some r') ↔ ∃ l', registered l' = some r') := by
    intro r' hr'
    simp only [withoutReferrer_eq_some]
    constructor
    · rintro ⟨l', hl', -⟩
      exact ⟨l', hl'⟩
    · rintro ⟨l', hl'⟩
      refine ⟨l', hl', ?_⟩
      rintro ⟨rfl, hl⟩
      rw [hl, Option.some.injEq] at hl'
      exact hr' hl'.symm
  have hlast : LastLocation registered r l ↔ registered l = some r ∧
      ¬ ∃ l', withoutReferrer registered r l l' = some r := by
    simp only [withoutReferrer_eq_some, LastLocation]
    constructor
    · rintro ⟨hl, hall⟩
      refine ⟨hl, ?_⟩
      rintro ⟨l', hl', hne⟩
      exact hne ⟨hall l' hl', hl⟩
    · rintro ⟨hl, hno⟩
      refine ⟨hl, fun l' hl' => ?_⟩
      by_contra hne
      exact hno ⟨l', hl', fun heq => hne heq.1⟩
  constructor
  · rintro hmatch' hlast'
    have hl := (hlast.mp hlast').1
    have hgone := (hlast.mp hlast').2
    have hentry : HasEntry hash_pointer t r := (hmatch r).mpr ⟨l, hl⟩
    by_contra hout
    exact hgone ((hmatch' r).mp ((hthis hentry).mpr (.inr hout)))
  · intro hinline r'
    by_cases hr' : r' = r
    · subst hr'
      by_cases hentry : HasEntry hash_pointer t r'
      · rw [hthis hentry]
        constructor
        · rintro (hleft' | hout)
          · exact hleft'
          · by_contra hno
            obtain ⟨l₀, hl₀⟩ := (hmatch r').mp hentry
            have hsame : l₀ = l ∧ registered l = some r' := by
              by_contra hne
              exact hno ⟨l₀, withoutReferrer_eq_some.mpr ⟨hl₀, hne⟩⟩
            exact hout (hinline (hlast.mpr ⟨hsame.2, hno⟩))
        · exact .inl
      · refine iff_of_false (hnone hentry) ?_
        rintro ⟨l', hl'⟩
        exact hentry ((hmatch r').mpr ⟨l', (withoutReferrer_eq_some.mp hl').1⟩)
    · rw [hothers r' hr', hmatch, hleft r' hr']

/-- A clear keeps the match. -/
theorem Matches.clear (h : Represents hash_pointer w_hash_pointer t registered)
    (hmatch : Matches hash_pointer t registered) {r : α} {memory memory' : β → Option α}
    {t' : weak_table_t α β}
    (hrun : weak_clear_no_lock hash_pointer t r memory = .ok (t', memory')) :
    Matches hash_pointer t' (withoutReferent registered r) := by
  obtain ⟨t₁, memory₁, hrun₁, -, hentries⟩ := h.good.clear r memory
  rw [hrun, Except.ok.injEq, Prod.mk.injEq] at hrun₁
  intro r'
  simp only [hrun₁.1, hentries, hmatch r', withoutReferent_eq_some, exists_and_left]

/-- One operation keeps the match if and only if it removes no entry that is out of line. -/
theorem Represents.matches_step {isTaggedPointer : α → Bool}
    (h : Represents hash_pointer w_hash_pointer t registered)
    (hmatch : Matches hash_pointer t registered) {op : TableOp α β} {ops : List (TableOp α β)}
    (hlegal : Legal isTaggedPointer registered (op :: ops)) {t' : weak_table_t α β}
    (hrun : tableStep hash_pointer w_hash_pointer isTaggedPointer t op = .ok t') :
    Matches hash_pointer t' (registeredAfter registered op) ↔
      RemovesInline hash_pointer t registered op := by
  cases op with
  | register r l options =>
    obtain ⟨⟨hl, htag⟩, -⟩ := hlegal
    obtain ⟨t₁, hrem, -⟩ := h.remember hl r
    simp only [tableStep, weak_register_no_lock, htag, hrem] at hrun
    obtain rfl : t₁ = t' := by simpa using hrun
    exact iff_of_true (Matches.register h hmatch hl hrem) trivial
  | unregister r l => exact Matches.unregister h hmatch hrun
  | clear r =>
    obtain ⟨t₁, hclear, -⟩ := h.clear r fun _ => none
    simp only [tableStep, hclear, ok_bind] at hrun
    obtain rfl : t₁ = t' := by simpa using hrun
    exact iff_of_true (Matches.clear h hmatch hclear) trivial

theorem legal_append {isTaggedPointer : α → Bool} (registered : β → Option α)
    (before after : List (TableOp α β)) :
    Legal isTaggedPointer registered (before ++ after) ↔ Legal isTaggedPointer registered before ∧
      Legal isTaggedPointer (before.foldl registeredAfter registered) after := by
  induction before generalizing registered with
  | nil => simp [Legal]
  | cons op before ih =>
    simp only [List.cons_append, Legal, ih, List.foldl_cons, and_assoc]

section runs

variable (hash_pointer : α → Nat) (w_hash_pointer : β → Nat) (isTaggedPointer : α → Bool)

/-- The zeroed table after the operations. -/
def tableAfter (ops : List (TableOp α β)) : Except Fault (weak_table_t α β) :=
  ops.foldlM (tableStep hash_pointer w_hash_pointer isTaggedPointer) zeroedTable

/-- What is registered after the operations. -/
def registrations (ops : List (TableOp α β)) : β → Option α :=
  ops.foldl registeredAfter fun _ => none

/-- After the operations an object has an entry if and only if a location is
registered for it. -/
def MatchAfter (ops : List (TableOp α β)) : Prop :=
  ∃ t, tableAfter hash_pointer w_hash_pointer isTaggedPointer ops = .ok t ∧
    Matches hash_pointer t (registrations ops)

/-- After the operations the entry of the object is inline: it never held more than
four locations since it was made. -/
def InlineAfter (ops : List (TableOp α β)) (r : α) : Prop :=
  ∃ t, tableAfter hash_pointer w_hash_pointer isTaggedPointer ops = .ok t ∧
    InlineEntry hash_pointer t r

variable {hash_pointer w_hash_pointer isTaggedPointer}

/-- One more operation of a run that matches so far. -/
theorem matchAfter_snoc {before after : List (TableOp α β)} {op : TableOp α β}
    (hlegal : Legal isTaggedPointer (fun _ => none) (before ++ op :: after))
    (hmatch : MatchAfter hash_pointer w_hash_pointer isTaggedPointer before) :
    MatchAfter hash_pointer w_hash_pointer isTaggedPointer (before ++ [op]) ↔
      ∀ r l, op = .unregister r l → LastLocation (registrations before) r l →
        InlineAfter hash_pointer w_hash_pointer isTaggedPointer before r := by
  obtain ⟨t, hrun, hmatch⟩ := hmatch
  obtain ⟨hbefore, hop⟩ := (legal_append _ before (op :: after)).mp hlegal
  obtain ⟨t₁, hrun₁, h⟩ := (represents_zeroedTable hash_pointer w_hash_pointer).run hbefore
  obtain rfl : t₁ = t := Except.ok.inj (hrun₁.symm.trans hrun)
  obtain ⟨t', hstep, -⟩ := h.step hop
  have hafter : tableAfter hash_pointer w_hash_pointer isTaggedPointer (before ++ [op]) = .ok t' := by
    unfold tableAfter at hrun ⊢
    rw [List.foldlM_append, hrun, ok_bind]
    simp [hstep, pure, Except.pure]
  have hregistrations : registrations (before ++ [op]) =
      registeredAfter (registrations before) op := by
    simp [registrations]
  have hiff := h.matches_step hmatch hop hstep
  constructor
  · rintro ⟨t₂, hrun₂, hmatch'⟩ r l rfl hlast
    obtain rfl : t₂ = t' := Except.ok.inj (hrun₂.symm.trans hafter)
    rw [hregistrations] at hmatch'
    exact ⟨t₁, hrun, hiff.mp hmatch' hlast⟩
  · intro hinline
    refine ⟨t', hafter, ?_⟩
    rw [hregistrations]
    apply hiff.mpr
    cases op with
    | register r l options => trivial
    | clear r => trivial
    | unregister r l =>
      intro hlast
      obtain ⟨t₂, hrun₂, hentry⟩ := hinline r l rfl hlast
      obtain rfl : t₂ = t₁ := Except.ok.inj (hrun₂.symm.trans hrun)
      exact hentry

theorem matchAfter_nil : MatchAfter hash_pointer w_hash_pointer isTaggedPointer [] := by
  refine ⟨zeroedTable, rfl, fun r => ?_⟩
  rw [hasEntry_iff (good_zeroedTable : GoodTable hash_pointer w_hash_pointer zeroedTable)]
  simp [zeroedTable, occupied, registrations]

variable (hash_pointer w_hash_pointer isTaggedPointer)

/-- In every state of a run an entry exists exactly for the objects with a registered
location, if and only if each unregistration that takes the last location of an object
finds the entry of the object inline. -/
theorem entries_match_registrations_iff {ops : List (TableOp α β)}
    (hlegal : Legal isTaggedPointer (fun _ => none) ops) :
    (∀ before after, ops = before ++ after →
        MatchAfter hash_pointer w_hash_pointer isTaggedPointer before) ↔
      ∀ before r l after, ops = before ++ .unregister r l :: after →
        LastLocation (registrations before) r l →
        InlineAfter hash_pointer w_hash_pointer isTaggedPointer before r := by
  constructor
  · rintro hmatch before r l after rfl
    have hnext := hmatch (before ++ [.unregister r l]) after (by simp)
    exact (matchAfter_snoc hlegal (hmatch before _ rfl)).mp hnext r l rfl
  · intro hinline before
    induction before using List.reverseRecOn with
    | nil => exact fun _ _ => matchAfter_nil
    | append_singleton before op ih =>
      rintro after rfl
      rw [List.append_assoc, List.singleton_append] at hlegal
      refine (matchAfter_snoc hlegal (ih (op :: after) (by simp))).mpr ?_
      rintro r l rfl
      exact hinline before r l after (by simp)

/-- The only variable of an object goes, and so does the entry. -/
theorem entries_match_one_registration :
    MatchAfter (fun _ => 0) (fun _ => 0) (fun _ => false)
      ([.register 1 10 .CrashIfDeallocating, .unregister 1 10] : List (TableOp Nat Nat)) := by
  refine (entries_match_registrations_iff (fun _ => 0) (fun _ => 0) (fun _ => false)
    (by simp [Legal])).mpr ?_ _ [] (List.append_nil _).symm
  intro before r l after hops hlast
  cases before with
  | nil => simp at hops
  | cons op before =>
    simp only [List.cons_append, List.cons.injEq] at hops
    obtain ⟨rfl, hops⟩ := hops
    cases before with
    | cons op before => simp at hops
    | nil =>
      simp only [List.nil_append, List.cons.injEq, TableOp.unregister.injEq] at hops
      obtain ⟨⟨rfl, rfl⟩, rfl⟩ := hops
      exact ⟨_, rfl, 0, new_entry 1 10, rfl, rfl⟩

/-- Five variables hold an object, so that its entry is out of line. After all five are
unregistered the entry is still there. -/
theorem entry_stays_after_five_registrations :
    let before : List (TableOp Nat Nat) :=
      [.register 1 10 .CrashIfDeallocating, .register 1 11 .CrashIfDeallocating,
        .register 1 12 .CrashIfDeallocating, .register 1 13 .CrashIfDeallocating,
        .register 1 14 .CrashIfDeallocating, .unregister 1 10, .unregister 1 11,
        .unregister 1 12, .unregister 1 13]
    let ops := before ++ [.unregister 1 14]
    Legal (fun _ => false) (fun _ => none) ops ∧ LastLocation (registrations before) 1 14 ∧
      ¬ MatchAfter (fun _ => 0) (fun _ => 0) (fun _ => false) ops := by
  intro before ops
  have hstays : (match tableAfter (fun _ => 0) (fun _ => 0) (fun _ => false) ops with
      | .ok t => (match weak_entry_for_referent (fun _ => 0) t 1 with
        | .ok entry => entry.isSome
        | .error _ => false)
      | .error _ => false) = true := by decide +kernel
  have hlast : LastLocation (registrations before) 1 14 := by
    constructor
    · simp [before, registrations, registeredAfter, withoutReferrer, Function.update]
    · intro l
      simp [before, registrations, registeredAfter, withoutReferrer, Function.update]
      omega
  refine ⟨by simp [ops, before, Legal, registeredAfter, Function.update], hlast, ?_⟩
  rintro ⟨t, hrun, hmatch⟩
  have hentry : HasEntry (fun _ => 0) t 1 := by
    rw [hrun] at hstays
    unfold HasEntry
    cases hfind : weak_entry_for_referent (fun _ => 0) t 1 with
    | error fault => simp [hfind] at hstays
    | ok entry =>
      simp only [hfind] at hstays
      obtain ⟨e, rfl⟩ := Option.isSome_iff_exists.mp hstays
      exact ⟨e, rfl⟩
  obtain ⟨l, hl⟩ := (hmatch 1).mp hentry
  have hsplit : registrations ops = withoutReferrer (registrations before) 1 14 := rfl
  rw [hsplit, withoutReferrer_eq_some] at hl
  exact hl.2 ⟨hlast.2 l hl.1, hlast.1⟩

end runs

end objc_runtime.weak
