-- Every step of @synchronized keeps the caches, the nodes and the mutexes consistent, so no two
-- threads are inside an object at once.
import ObjcRuntime.SyncThreads

namespace objc_runtime.sync

open runs

variable {Obj Stripe Thread : Type}

/-! ## The steps keep it -/

section kept
variable [DecidableEq Obj] [DecidableEq Stripe] [DecidableEq Thread]
  {stripeOf : Obj → Stripe} {s : Threads Obj Stripe Thread} {t : Thread} {object : Obj} {n : Nat}

/-- A thread goes on with caches of its own. -/
def Threads.moves (s : Threads Obj Stripe Thread) (t : Thread) (tls : ThreadData)
    (place : Place Obj) (inside : Obj → Nat) : Threads Obj Stripe Thread where
  data := s.data.setThread t tls
  locks := s.locks
  place := Function.update s.place t place
  inside := Function.update s.inside t inside

omit [DecidableEq Obj] [DecidableEq Stripe] in
theorem goes_eq_moves (place : Place Obj) :
    s.goes t place = s.moves t (s.data.threads t) place (s.inside t) := by
  simp only [Threads.goes, Threads.moves, SyncState.setThread, Function.update_eq_self]

omit [DecidableEq Obj] [DecidableEq Stripe] in
theorem users_moves {tls : ThreadData} {place : Place Obj} {inside : Obj → Nat}
    (husers : n ∈ slots tls ∨ Between place n ↔ t ∈ s.users n) :
    (s.moves t tls place inside).users n = s.users n := by
  ext u
  by_cases hu : u = t
  · subst hu
    rw [← husers]
    simp [Threads.users, Threads.moves, SyncState.setThread]
  · simp [Threads.users, Threads.moves, SyncState.setThread, Function.update_of_ne hu]

omit [DecidableEq Stripe] in
theorem Consistent.moves (h : Consistent stripeOf s) {tls : ThreadData} {place : Place Obj}
    {inside : Obj → Nat} (hown : Own stripeOf s.data t tls place inside)
    (husers : ∀ n, n ∈ slots tls ∨ Between place n ↔ t ∈ s.users n)
    (hcritical : critical stripeOf place = critical stripeOf (s.place t)) :
    Consistent stripeOf (s.moves t tls place inside) where
  listed := h.listed
  unique := h.unique
  finite n := by
    rw [users_moves (husers n)]
    exact h.finite n
  threadCount n hn := by
    rw [users_moves (husers n)]
    exact h.threadCount n hn
  locked u stripe := by
    by_cases hu : u = t
    · subst hu
      simp only [Threads.moves, Function.update_self, hcritical]
      exact h.locked u stripe
    · simp only [Threads.moves, Function.update_of_ne hu]
      exact h.locked u stripe
  own u := by
    by_cases hu : u = t
    · subst hu
      simp only [Threads.moves, SyncState.setThread, Function.update_self]
      exact ⟨hown.nodup, hown.slot, hown.depth, hown.entered, hown.mutex, hown.knows⟩
    · simp only [Threads.moves, SyncState.setThread, Function.update_of_ne hu]
      have hother := h.own u
      exact ⟨hother.nodup, hother.slot, hother.depth, hother.entered, hother.mutex, hother.knows⟩

/-- Nothing but what the thread knows differs between the places. -/
structure Alike (stripeOf : Obj → Stripe) (place place' : Place Obj) : Prop where
  pending : ∀ o, pending place o = pending place' o
  entering : ∀ n, entering place n = entering place' n
  leaving : ∀ n, leaving place n = leaving place' n
  between : ∀ n, Between place n ↔ Between place' n
  critical : critical stripeOf place = critical stripeOf place'

omit [DecidableEq Stripe] in
theorem Consistent.goes (h : Consistent stripeOf s) {place place' : Place Obj}
    (hplace : s.place t = place) (halike : Alike stripeOf place' place)
    (hknows : Knows stripeOf s.data (s.data.threads t) place') :
    Consistent stripeOf (s.goes t place') := by
  subst hplace
  rw [goes_eq_moves]
  refine h.moves ((h.own t).change (Nat.le_refl _) (fun _ _ => rfl) (fun n hn => .inl ⟨hn, rfl⟩)
    halike.pending (fun n hn => ?_) hknows) (fun n => ?_) halike.critical
  · rw [halike.entering, halike.leaving]
    exact (h.own t).mutex n hn
  · rw [halike.between]
    rfl

omit [DecidableEq Stripe] in
theorem Consistent.knows (h : Consistent stripeOf s) {place : Place Obj}
    (hplace : s.place t = place) : Knows stripeOf s.data (s.data.threads t) place :=
  hplace ▸ (h.own t).knows

/-- The threads that use a node can be counted in an `int32_t`. -/
def Threads.Few (s : Threads Obj Stripe Thread) : Prop := ∀ n, (s.users n).ncard < 2 ^ 31

/-- A count that is to be raised is below the limit of its type. -/
def HasRoom : Place Obj → (Obj → Nat) → Prop
  | .fastMatched object .ACQUIRE _, inside => inside object + 1 < 2 ^ 64
  | .listMatched object .ACQUIRE _ _, inside => inside object + 1 < 2 ^ 32
  | _, _ => True

omit [DecidableEq Stripe] in
/-- A node that a thread uses has a positive count. -/
theorem Consistent.threadCount_pos (h : Consistent stripeOf s) (hfew : s.Few)
    (hn : n < s.data.allocated) (ht : t ∈ s.users n) :
    (s.data.nodes n).threadCount.sle 0 = false := by
  have hpos : 0 < (s.users n).ncard := (Set.ncard_pos (h.finite n)).mpr ⟨t, ht⟩
  have hlt := hfew n
  have htoNat : (BitVec.ofNat 32 (s.users n).ncard).toNat = (s.users n).ncard :=
    Nat.mod_eq_of_lt (by omega)
  have htoInt := BitVec.toInt_eq_toNat_of_lt (x := BitVec.ofNat 32 (s.users n).ncard) (by omega)
  have hzero : (0 : BitVec 32).toInt = 0 := rfl
  rw [h.threadCount n hn, BitVec.sle, htoInt, htoNat, hzero, decide_eq_false_iff_not]
  omega

theorem Consistent.fastCache (h : Consistent stripeOf s) {why : usage}
    (hplace : s.place t = .fastCache object why) {s' : Threads Obj Stripe Thread}
    (hnext : next stripeOf s t = some s') : Consistent stripeOf s' := by
  have hwhy : why ≠ .CHECK := h.knows hplace
  have hmiss : (∀ n, (s.data.threads t).SYNC_DATA_DIRECT_KEY = some n →
      (s.data.nodes n).object ≠ object) → Consistent stripeOf (s.goes t (.listCache object why 0)) :=
    fun hkey => h.goes hplace
      ⟨fun o => by cases why <;> rfl, fun _ => rfl, fun _ => rfl, fun _ => Iff.rfl, rfl⟩
      ⟨hwhy, hkey, by simp⟩
  simp only [next, hplace] at hnext
  cases hkey : (s.data.threads t).SYNC_DATA_DIRECT_KEY with
  | none =>
    simp only [hkey, Option.some.injEq] at hnext
    subst hnext
    exact hmiss fun n hn => by rw [hkey] at hn; cases hn
  | some n =>
    simp only [hkey] at hnext
    by_cases hobject : (s.data.nodes n).object = object
    · rw [if_pos hobject, Option.some.injEq] at hnext
      subst hnext
      exact h.goes hplace
        ⟨fun o => by cases why <;> rfl, fun _ => rfl, fun _ => rfl, fun _ => Iff.rfl, rfl⟩
        ⟨hwhy, hkey, hobject⟩
    · rw [if_neg hobject, Option.some.injEq] at hnext
      subst hnext
      exact hmiss fun m hm => by
        rw [hkey, Option.some.injEq] at hm
        rwa [← hm]

/-- A search that has found nothing goes on to the list, unless the thread is inside the object. -/
theorem Consistent.listCache (h : Consistent stripeOf s) {why : usage} {i : Nat}
    (hplace : s.place t = .listCache object why i) {s' : Threads Obj Stripe Thread}
    (hnext : next stripeOf s t = some s') : Consistent stripeOf s' := by
  obtain ⟨hwhy, hkey, hbefore⟩ := h.knows hplace
  simp only [next, hplace] at hnext
  cases hitem : (s.data.threads t).syncCache[i]? with
  | none =>
    simp only [hitem, Option.some.injEq] at hnext
    subst hnext
    have hall : (s.data.threads t).syncCache.take i = (s.data.threads t).syncCache :=
      List.take_of_length_le (List.getElem?_eq_none_iff.mp hitem)
    rw [hall] at hbefore
    refine h.goes hplace
      ⟨fun o => by cases why <;> rfl, fun _ => rfl, fun _ => rfl, fun _ => Iff.rfl, rfl⟩
      ⟨hwhy, fun n hn => ?_⟩
    simp only [slots, cached, List.map_append, List.map_map, List.mem_append, List.mem_map,
      Option.mem_toList] at hn
    rcases hn with ⟨m, hm, rfl⟩ | ⟨item, hmem, rfl⟩
    · exact hkey m hm
    · exact hbefore item hmem
  | some item =>
    simp only [hitem] at hnext
    by_cases hobject : (s.data.nodes item.data).object = object
    · rw [if_neg (not_not.mpr hobject), Option.some.injEq] at hnext
      subst hnext
      exact h.goes hplace
        ⟨fun o => by cases why <;> rfl, fun _ => rfl, fun _ => rfl, fun _ => Iff.rfl, rfl⟩
        ⟨hwhy, hitem, hobject⟩
    · rw [if_pos hobject, Option.some.injEq] at hnext
      subst hnext
      refine h.goes hplace
        ⟨fun o => by cases why <;> rfl, fun _ => rfl, fun _ => rfl, fun _ => Iff.rfl, rfl⟩
        ⟨hwhy, hkey, fun item' hmem => ?_⟩
      rw [List.take_add_one, hitem, Option.toList_some, List.mem_append, List.mem_singleton] at hmem
      rcases hmem with hmem | rfl
      · exact hbefore item' hmem
      · exact hobject

omit [DecidableEq Stripe] in
theorem Consistent.ne_object (h : Consistent stripeOf s) (hn : n < s.data.allocated) (m : Nat)
    (hm : m < s.data.allocated) (hmn : m ≠ n) :
    (s.data.nodes m).object ≠ (s.data.nodes n).object :=
  fun heq => hmn (h.unique m n hm hn heq)

omit [DecidableEq Stripe] in
/-- The count of a cached node is raised or lowered. -/
theorem Consistent.recount (h : Consistent stripeOf s) {tls : ThreadData}
    {rest : List (Nat × Nat)} {c c' : Nat} {place place' : Place Obj} (hplace : s.place t = place)
    (hold : (cached (s.data.threads t)).Perm ((n, c) :: rest))
    (hnew : (cached tls).Perm ((n, c') :: rest)) (hpos : 0 < c')
    (hobject : (s.data.nodes n).object = object)
    (hpending : ∀ o, o ≠ object → pending place' o = pending place o)
    (hcount : c' + pending place object = c + pending place' object)
    (hlocks : ∀ m, m ≠ n → entering place' m = entering place m ∧ leaving place' m = leaving place m)
    (hmutex : c' + leaving place' n + entering place n = c + leaving place n + entering place' n)
    (hbetween : ∀ m, Between place' m ↔ Between place m)
    (hcritical : critical stripeOf place' = critical stripeOf place)
    (hknows : Knows stripeOf s.data tls place') :
    Consistent stripeOf (s.moves t tls place' (s.inside t)) := by
  subst hplace hobject
  have hslots : (slots tls).Perm (slots (s.data.threads t)) :=
    (hnew.map Prod.fst).trans (hold.map Prod.fst).symm
  have hmem : n ∈ slots (s.data.threads t) := (hold.map Prod.fst).mem_iff.mpr List.mem_cons_self
  refine h.moves ((h.own t).recount hold hnew hpos (h.ne_object ((h.own t).slot n hmem).1) hpending
    hcount hlocks hmutex hknows) (fun m => ?_) hcritical
  rw [hslots.mem_iff, hbetween]
  rfl

omit [DecidableEq Stripe] in
theorem Consistent.uncount (h : Consistent stripeOf s) {tls : ThreadData}
    {rest : List (Nat × Nat)} {place : Place Obj} (hplace : s.place t = place)
    (hold : (cached (s.data.threads t)).Perm ((n, 1) :: rest)) (hnew : (cached tls).Perm rest)
    (hobject : (s.data.nodes n).object = object)
    (hpending : ∀ o, pending place o = if object = o then 1 else 0)
    (hentering : ∀ m, entering place m = 0) (hleaving : ∀ m, leaving place m = 0)
    (hbetween : ∀ m, ¬ Between place m) (hcritical : critical stripeOf place = none) :
    Consistent stripeOf (s.moves t tls (.decrement object n) (s.inside t)) := by
  subst hplace hobject
  have hslots : (n :: slots tls).Perm (slots (s.data.threads t)) :=
    ((hnew.map Prod.fst).cons n).trans (hold.map Prod.fst).symm
  have hmem : n ∈ slots (s.data.threads t) := hslots.mem_iff.mp List.mem_cons_self
  refine h.moves ((h.own t).uncount hold hnew (h.ne_object ((h.own t).slot n hmem).1) hpending
    hentering hleaving) (fun m => ?_) hcritical.symm
  constructor
  · rintro (hm | rfl)
    · exact .inl (hslots.mem_iff.mp (List.mem_cons_of_mem n hm))
    · exact .inl hmem
  · rintro (hm | hm)
    · rcases List.mem_cons.mp (hslots.mem_iff.mpr hm) with rfl | hm
      · exact .inr rfl
      · exact .inl hm
    · exact absurd hm (hbetween m)

omit [DecidableEq Obj] [DecidableEq Stripe] in
theorem moves_setThread (tls : ThreadData) (place : Place Obj) :
    (s.setData (s.data.setThread t tls)).goes t place = s.moves t tls place (s.inside t) := by
  simp only [Threads.setData, Threads.goes, Threads.moves, Function.update_eq_self]

/-- A count goes up below the limit of its type. -/
theorem toNat_add_one {w : Nat} (c : BitVec w) (h : c.toNat + 1 < 2 ^ w) :
    (c + 1).toNat = c.toNat + 1 := by
  change (c + BitVec.ofNat w 1).toNat = _
  rw [BitVec.toNat_add, BitVec.toNat_ofNat, Nat.add_mod_mod, Nat.mod_eq_of_lt h]

theorem toNat_sub_one {w : Nat} (c : BitVec w) (h : 0 < c.toNat) : (c - 1).toNat = c.toNat - 1 := by
  have hlt := c.isLt
  have hone : 1 < 2 ^ w := by omega
  have hsum : 2 ^ w - 1 + c.toNat = c.toNat - 1 + 2 ^ w := by omega
  change (c - BitVec.ofNat w 1).toNat = _
  rw [BitVec.toNat_sub, BitVec.toNat_ofNat, Nat.mod_eq_of_lt hone, hsum, Nat.add_mod_right,
    Nat.mod_eq_of_lt (by omega)]

omit [DecidableEq Stripe] in
/-- A thread that is inside an object enters it again. -/
theorem Consistent.reentered (h : Consistent stripeOf s) {tls : ThreadData}
    {rest : List (Nat × Nat)} {c : Nat} {place : Place Obj} (hplace : s.place t = place)
    (hold : (cached (s.data.threads t)).Perm ((n, c) :: rest))
    (hnew : (cached tls).Perm ((n, c + 1) :: rest)) (hobject : (s.data.nodes n).object = object)
    (hpending : ∀ o, pending place o = 0) (hentering : ∀ m, entering place m = 0)
    (hleaving : ∀ m, leaving place m = 0) (hbetween : ∀ m, ¬ Between place m)
    (hcritical : critical stripeOf place = none) :
    Consistent stripeOf (s.moves t tls (.lockMutex object n) (s.inside t)) := by
  have hmem : n ∈ slots tls := (hnew.map Prod.fst).mem_iff.mpr List.mem_cons_self
  refine h.recount hplace hold hnew (Nat.succ_pos c) hobject (fun o ho => ?_) ?_
    (fun m hm => ⟨?_, (hleaving m).symm⟩) ?_ (fun m => (iff_false_intro (hbetween m)).symm)
    hcritical.symm ⟨hmem, hobject⟩
  · rw [hpending]
    exact if_neg ho.symm
  · rw [hpending]
    exact congrArg (c + ·) (if_pos rfl).symm
  · rw [hentering]
    exact if_neg hm.symm
  · rw [hentering, hleaving]
    exact congrArg (c + ·) (if_pos rfl).symm

omit [DecidableEq Stripe] in
/-- A thread leaves an object that it has entered before. -/
theorem Consistent.left (h : Consistent stripeOf s) {tls : ThreadData}
    {rest : List (Nat × Nat)} {c : Nat} {place : Place Obj} (hplace : s.place t = place)
    (hold : (cached (s.data.threads t)).Perm ((n, c) :: rest))
    (hnew : (cached tls).Perm ((n, c - 1) :: rest)) (hpos : 1 < c)
    (hobject : (s.data.nodes n).object = object)
    (hpending : ∀ o, pending place o = if object = o then 1 else 0)
    (hentering : ∀ m, entering place m = 0)
    (hleaving : ∀ m, leaving place m = 0) (hbetween : ∀ m, ¬ Between place m)
    (hcritical : critical stripeOf place = none) :
    Consistent stripeOf (s.moves t tls (.unlockMutex object n) (s.inside t)) := by
  have hmem : n ∈ slots (s.data.threads t) := (hold.map Prod.fst).mem_iff.mpr List.mem_cons_self
  refine h.recount hplace hold hnew (by omega) hobject (fun o ho => ?_) ?_
    (fun m hm => ⟨(hentering m).symm, ?_⟩) ?_ (fun m => (iff_false_intro (hbetween m)).symm)
    hcritical.symm ((h.own t).slot n hmem).1
  · rw [hpending, if_neg ho.symm]
    rfl
  · rw [hpending, if_pos rfl]
    exact Nat.sub_add_cancel (by omega)
  · rw [hleaving]
    exact if_neg hm.symm
  · have hone : leaving (.unlockMutex object n) n = 1 := if_pos rfl
    rw [hone, hentering, hleaving]
    exact Nat.sub_add_cancel (by omega)

theorem Consistent.fastMatched (h : Consistent stripeOf s)
    (hfew : s.Few) {why : usage}
    (hplace : s.place t = .fastMatched object why n) (hroom : HasRoom (s.place t) (s.inside t))
    {s' : Threads Obj Stripe Thread} (hnext : next stripeOf s t = some s') :
    Consistent stripeOf s' := by
  obtain ⟨hwhy, hkey, hobject⟩ := h.knows hplace
  have hmem := mem_slots_of_key hkey
  obtain ⟨hlt, hpos⟩ := (h.own t).slot n hmem
  have hold := cached_fast hkey
  obtain ⟨hcount, -, -⟩ := lockCount_of_perm (h.own t).nodup (List.Perm.of_eq hold)
  rw [hcount] at hpos
  have hthread := h.threadCount_pos hfew hlt (.inl hmem)
  have hnonzero : ¬ (s.data.threads t).SYNC_COUNT_DIRECT_KEY = 0 := fun hzero => by
    rw [hzero] at hpos
    exact absurd hpos (by decide)
  have hnew (c : BitVec 64) : cached { s.data.threads t with SYNC_COUNT_DIRECT_KEY := c } =
      (n, c.toNat) :: (s.data.threads t).syncCache.map fun item => (item.data, item.lockCount.toNat) :=
    cached_fast hkey
  simp only [next, hplace, Option.some.injEq] at hnext
  subst hnext
  unfold nextFast
  dsimp only
  rw [hthread, Bool.false_or, decide_eq_false hnonzero, if_neg Bool.false_ne_true]
  cases why with
  | CHECK => exact absurd rfl hwhy
  | ACQUIRE =>
    have hdepth' := (h.own t).depth n hlt
    rw [hcount, hobject, hplace] at hdepth'
    have hnone : pending (.fastMatched object .ACQUIRE n) object = 0 := rfl
    have hfits : (s.data.threads t).SYNC_COUNT_DIRECT_KEY.toNat + 1 < 2 ^ 64 := by
      rw [hplace] at hroom
      rw [hdepth', hnone]
      exact hroom
    dsimp only
    rw [moves_setThread]
    refine h.reentered hplace (.of_eq hold) (.of_eq ?_) hobject (fun _ => rfl) (fun _ => rfl)
      (fun _ => rfl) (fun _ => not_false) rfl
    rw [hnew, toNat_add_one _ hfits]
  | RELEASE =>
    dsimp only
    split_ifs with hlast
    · rw [moves_setThread]
      have hone : (s.data.threads t).SYNC_COUNT_DIRECT_KEY.toNat = 1 := by
        have hsub := toNat_sub_one _ hpos
        rw [hlast] at hsub
        have hzero : (0 : BitVec 64).toNat = 0 := rfl
        omega
      rw [hone] at hold
      exact h.uncount hplace (.of_eq hold) (.refl _) hobject (fun _ => rfl) (fun _ => rfl)
        (fun _ => rfl) (fun _ => not_false) rfl
    · rw [moves_setThread]
      have hmany : 1 < (s.data.threads t).SYNC_COUNT_DIRECT_KEY.toNat := by
        by_contra hle
        refine hlast (BitVec.eq_of_toNat_eq ?_)
        rw [toNat_sub_one _ hpos]
        exact Nat.sub_eq_zero_of_le (by omega)
      refine h.left hplace (.of_eq hold) (.of_eq ?_) hmany hobject (fun _ => rfl) (fun _ => rfl)
        (fun _ => rfl) (fun _ => not_false) rfl
      rw [hnew, toNat_sub_one _ hpos]

theorem Consistent.listMatched (h : Consistent stripeOf s)
    (hfew : s.Few) {why : usage} {i : Nat} {item : SyncCacheItem}
    (hplace : s.place t = .listMatched object why i item)
    (hroom : HasRoom (s.place t) (s.inside t)) {s' : Threads Obj Stripe Thread}
    (hnext : next stripeOf s t = some s') : Consistent stripeOf s' := by
  obtain ⟨hwhy, hitem, hobject⟩ := h.knows hplace
  have hmem := mem_slots_of_item (List.mem_of_getElem? hitem)
  obtain ⟨hlt, hpos⟩ := (h.own t).slot item.data hmem
  have hold := cached_item hitem
  obtain ⟨hcount, -, -⟩ := lockCount_of_perm (h.own t).nodup hold
  rw [hcount] at hpos
  have hthread := h.threadCount_pos hfew hlt (.inl hmem)
  have hnonzero : ¬ item.lockCount = 0 := fun hzero => by
    rw [hzero] at hpos
    exact absurd hpos (by decide)
  have hnew (c : BitVec 32) := cached_set hitem { item with lockCount := c }
  simp only [next, hplace, Option.some.injEq] at hnext
  subst hnext
  unfold nextCached
  dsimp only
  rw [hthread, Bool.false_or, decide_eq_false hnonzero, if_neg Bool.false_ne_true]
  cases why with
  | CHECK => exact absurd rfl hwhy
  | ACQUIRE =>
    have hdepth' := (h.own t).depth item.data hlt
    rw [hcount, hobject, hplace] at hdepth'
    have hnone : pending (.listMatched object .ACQUIRE i item) object = 0 := rfl
    have hfits : item.lockCount.toNat + 1 < 2 ^ 32 := by
      rw [hplace] at hroom
      rw [hdepth', hnone]
      exact hroom
    dsimp only
    rw [moves_setThread]
    refine h.reentered hplace hold ?_ hobject (fun _ => rfl) (fun _ => rfl)
      (fun _ => rfl) (fun _ => not_false) rfl
    rw [← toNat_add_one _ hfits]
    exact hnew _
  | RELEASE =>
    dsimp only
    split_ifs with hlast
    · rw [moves_setThread]
      have hone : item.lockCount.toNat = 1 := by
        have hsub := toNat_sub_one _ hpos
        rw [hlast] at hsub
        have hzero : (0 : BitVec 32).toNat = 0 := rfl
        omega
      rw [hone] at hold
      exact h.uncount hplace hold (cached_removeItem hitem) hobject (fun _ => rfl) (fun _ => rfl)
        (fun _ => rfl) (fun _ => not_false) rfl
    · rw [moves_setThread]
      have hmany : 1 < item.lockCount.toNat := by
        by_contra hle
        refine hlast (BitVec.eq_of_toNat_eq ?_)
        rw [toNat_sub_one _ hpos]
        exact Nat.sub_eq_zero_of_le (by omega)
      refine h.left hplace hold ?_ hmany hobject (fun _ => rfl) (fun _ => rfl)
        (fun _ => rfl) (fun _ => not_false) rfl
      rw [← toNat_sub_one _ hpos]
      exact hnew _

/-- A search on the list of the object is for entering. -/
theorem Consistent.walk (h : Consistent stripeOf s) {why : usage} {p : List Nat}
    {firstUnused : Option Nat} (hplace : s.place t = .walk object why p firstUnused)
    {s' : Threads Obj Stripe Thread} (hnext : next stripeOf s t = some s') :
    Consistent stripeOf s' := by
  obtain ⟨rfl, habsent, hwalked, hrest, hfirst⟩ := h.knows hplace
  simp only [next, hplace, Option.some.injEq] at hnext
  subst hnext
  cases p with
  | nil =>
    have hother : ∀ m ∈ s.data.lists (stripeOf object), (s.data.nodes m).object ≠ object :=
      fun m hm => (hwalked m hm).resolve_left List.not_mem_nil
    cases firstUnused with
    | none =>
      exact h.goes hplace ⟨fun _ => rfl, fun _ => rfl, fun _ => rfl, fun _ => Iff.rfl, rfl⟩
        ⟨rfl, habsent, hother⟩
    | some n =>
      obtain ⟨hlist, hcount⟩ := hfirst n rfl
      exact h.goes hplace ⟨fun _ => rfl, fun _ => rfl, fun _ => rfl, fun _ => Iff.rfl, rfl⟩
        ⟨rfl, habsent, hlist, hcount, hother⟩
  | cons p list =>
    have hp := hrest p List.mem_cons_self
    rw [nextWalk]
    by_cases hobject : (s.data.nodes p).object = object
    · rw [if_pos hobject]
      exact h.goes hplace ⟨fun _ => rfl, fun _ => rfl, fun _ => rfl, fun _ => Iff.rfl, rfl⟩
        ⟨rfl, habsent, hp, hobject⟩
    · rw [if_neg hobject]
      refine h.goes hplace ⟨fun _ => rfl, fun _ => rfl, fun _ => rfl, fun _ => Iff.rfl, rfl⟩
        ⟨rfl, habsent, fun n hn => ?_, fun n hn => hrest n (List.mem_cons_of_mem p hn),
          fun n hn => ?_⟩
      · obtain hmem | hne := hwalked n hn
        · obtain rfl | hmem := List.mem_cons.mp hmem
          · exact .inr hobject
          · exact .inl hmem
        · exact .inr hne
      · split_ifs at hn with hunused
        · rw [Bool.and_eq_true, decide_eq_true_eq] at hunused
          obtain rfl := Option.some.inj hn
          exact ⟨hp, hunused.2⟩
        · exact hfirst n hn

/-! ## Steps that other threads see -/

/-- A thread changes what is shared and keeps its caches. -/
def Threads.shares (s : Threads Obj Stripe Thread) (t : Thread) (data : SyncState Obj Stripe Thread)
    (locks : Stripe → Option Thread) (place : Place Obj) : Threads Obj Stripe Thread where
  data := { data with threads := s.data.threads }
  locks := locks
  place := Function.update s.place t place
  inside := s.inside

omit [DecidableEq Obj] [DecidableEq Stripe] in
theorem users_of_between {data : SyncState Obj Stripe Thread} {locks : Stripe → Option Thread}
    {place : Place Obj} {m : Nat} (h : Between place m) :
    (s.shares t data locks place).users m = insert t (s.users m) := by
  ext u
  by_cases hu : u = t
  · subst hu
    simp [Threads.users, Threads.shares, h]
  · simp [Threads.users, Threads.shares, hu]

omit [DecidableEq Obj] [DecidableEq Stripe] in
theorem users_of_not_between {data : SyncState Obj Stripe Thread}
    {locks : Stripe → Option Thread} {place : Place Obj} {m : Nat} (h : ¬ Between place m)
    (hslot : m ∉ slots (s.data.threads t)) :
    (s.shares t data locks place).users m = s.users m \ {t} := by
  ext u
  by_cases hu : u = t
  · subst hu
    simp [Threads.users, Threads.shares, h, hslot]
  · simp [Threads.users, Threads.shares, hu]

omit [DecidableEq Obj] [DecidableEq Stripe] in
theorem users_of_same {data : SyncState Obj Stripe Thread} {locks : Stripe → Option Thread}
    {place : Place Obj} {m : Nat} (h : Between place m ↔ Between (s.place t) m) :
    (s.shares t data locks place).users m = s.users m := by
  ext u
  by_cases hu : u = t
  · subst hu
    simp [Threads.users, Threads.shares, h]
  · simp [Threads.users, Threads.shares, Function.update_of_ne hu]

omit [DecidableEq Stripe] in
/-- What a step keeps that changes the shared data, from what it keeps for each thread. -/
theorem Consistent.shares (h : Consistent stripeOf s) {data : SyncState Obj Stripe Thread}
    {locks : Stripe → Option Thread} {place : Place Obj}
    (hlisted : ∀ n stripe, n ∈ data.lists stripe ↔
      n < data.allocated ∧ stripeOf (data.nodes n).object = stripe)
    (hunique : ∀ n m, n < data.allocated → m < data.allocated →
      (data.nodes n).object = (data.nodes m).object → n = m)
    (hcount : ∀ n, n < data.allocated → (data.nodes n).threadCount =
      BitVec.ofNat 32 ((s.shares t data locks place).users n).ncard)
    (hlocked : ∀ u stripe, locks stripe = some u ↔
      critical stripeOf (Function.update s.place t place u) = some stripe)
    (hown : Own stripeOf data t (s.data.threads t) place (s.inside t))
    (hothers : ∀ u, u ≠ t → Own stripeOf data u (s.data.threads u) (s.place u) (s.inside u)) :
    Consistent stripeOf (s.shares t data locks place) where
  listed := hlisted
  unique := hunique
  finite n := by
    refine ((h.finite n).insert t).subset fun u hu => ?_
    by_cases hut : u = t
    · exact .inl hut
    · have hold : n ∈ slots (s.data.threads u) ∨ Between (Function.update s.place t place u) n := hu
      rw [Function.update_of_ne hut] at hold
      exact .inr hold
  threadCount := hcount
  locked := hlocked
  own u := by
    by_cases hu : u = t
    · subst hu
      simp only [Threads.shares, Function.update_self]
      exact ⟨hown.nodup, hown.slot, hown.depth, hown.entered, hown.mutex, hown.knows⟩
    · simp only [Threads.shares, Function.update_of_ne hu]
      have hother := hothers u hu
      exact ⟨hother.nodup, hother.slot, hother.depth, hother.entered, hother.mutex, hother.knows⟩

/-- A node with another count of threads. -/
def counts (data : SyncState Obj Stripe Thread) (n : Nat) (count : BitVec 32) :
    SyncState Obj Stripe Thread :=
  data.setNode n { data.nodes n with threadCount := count }

omit [DecidableEq Obj] [DecidableEq Stripe] [DecidableEq Thread] in
theorem counts_object (data : SyncState Obj Stripe Thread) (n m : Nat) (count : BitVec 32) :
    ((counts data n count).nodes m).object = (data.nodes m).object := by
  by_cases hm : m = n
  · subst hm
    simp [counts, SyncState.setNode]
  · simp [counts, SyncState.setNode, Function.update_of_ne hm]

omit [DecidableEq Obj] [DecidableEq Stripe] [DecidableEq Thread] in
theorem counts_mutex (data : SyncState Obj Stripe Thread) (n m : Nat) (count : BitVec 32) :
    ((counts data n count).nodes m).mutex = (data.nodes m).mutex := by
  by_cases hm : m = n
  · subst hm
    simp [counts, SyncState.setNode]
  · simp [counts, SyncState.setNode, Function.update_of_ne hm]

omit [DecidableEq Obj] [DecidableEq Stripe] [DecidableEq Thread] in
theorem counts_threadCount (data : SyncState Obj Stripe Thread) (n m : Nat) (count : BitVec 32) :
    ((counts data n count).nodes m).threadCount =
      if m = n then count else (data.nodes m).threadCount := by
  by_cases hm : m = n
  · subst hm
    simp [counts, SyncState.setNode]
  · simp [counts, SyncState.setNode, hm]

omit [DecidableEq Stripe] in
/-- A thread changes the count of a node, as it comes to use it or leaves it. -/
theorem Consistent.counted (h : Consistent stripeOf s) {place place' : Place Obj}
    {count : BitVec 32} (hplace : s.place t = place)
    (hcount : count =
      BitVec.ofNat 32 ((s.shares t (counts s.data n count) s.locks place').users n).ncard)
    (hbetween : ∀ m, m ≠ n → (Between place' m ↔ Between place m))
    (hpending : ∀ o, pending place' o = pending place o)
    (hentering : ∀ m, entering place' m = entering place m)
    (hleaving : ∀ m, leaving place' m = leaving place m)
    (hcritical : critical stripeOf place' = critical stripeOf place)
    (hunused : ∀ u, u ≠ t → critical stripeOf (s.place u) = some (stripeOf (s.data.nodes n).object) →
      (s.data.nodes n).threadCount = 0 → count = 0)
    (hknows : Knows stripeOf (counts s.data n count) (s.data.threads t) place') :
    Consistent stripeOf (s.shares t (counts s.data n count) s.locks place') := by
  subst hplace
  refine h.shares ?_ ?_ (fun m hm => ?_) (fun u stripe => ?_) ?_ (fun u hu => ?_)
  · simp only [counts_object]
    exact h.listed
  · simp only [counts_object]
    exact h.unique
  · rw [counts_threadCount]
    split_ifs with hmn
    · rw [hmn]
      exact hcount
    · rw [users_of_same (hbetween m hmn)]
      exact h.threadCount m hm
  · rw [h.locked]
    by_cases hu : u = t
    · rw [hu, Function.update_self, hcritical]
    · rw [Function.update_of_ne hu]
  · refine (h.own t).change (Nat.le_refl _) (fun m _ => counts_object _ _ _ _)
      (fun m hm => .inl ⟨hm, counts_object _ _ _ _⟩) hpending (fun m hm => ?_) hknows
    rw [counts_mutex, hentering, hleaving]
    exact (h.own t).mutex m hm
  · refine (h.own u).frame ⟨Nat.le_refl _, fun m _ _ => counts_object _ _ _ _, fun _ _ => rfl,
      fun m _ hlock hzero => ?_⟩ h.listed (fun m hm => .inl ⟨hm, counts_object _ _ _ _⟩)
      (fun m hm => .inl ⟨hm, by rw [counts_mutex]⟩)
    rw [counts_threadCount]
    split_ifs with hmn
    · subst hmn
      exact hunused u hu hlock hzero
    · exact hzero

omit [DecidableEq Stripe] in
/-- One thread holds the lock of a list. -/
theorem Consistent.critical_unique (h : Consistent stripeOf s) {u : Thread} {stripe : Stripe}
    (ht : critical stripeOf (s.place t) = some stripe)
    (hu : critical stripeOf (s.place u) = some stripe) : u = t :=
  Option.some.inj (((h.locked u stripe).mpr hu).symm.trans ((h.locked t stripe).mpr ht))

omit [DecidableEq Stripe] in
/-- A node that nobody uses. -/
theorem Consistent.users_eq_empty (h : Consistent stripeOf s)
    (hfew : s.Few) (hn : n < s.data.allocated)
    (hcount : (s.data.nodes n).threadCount = 0) : s.users n = ∅ := by
  by_contra hne
  obtain ⟨u, hu⟩ := Set.nonempty_iff_ne_empty.mpr hne
  have hpos := h.threadCount_pos hfew hn hu
  rw [hcount] at hpos
  exact absurd hpos (by decide)

theorem Consistent.increment (h : Consistent stripeOf s) {why : usage}
    (hplace : s.place t = .increment object why n) {s' : Threads Obj Stripe Thread}
    (hnext : next stripeOf s t = some s') : Consistent stripeOf s' := by
  obtain ⟨rfl, habsent, hlist, hobject⟩ := h.knows hplace
  obtain ⟨hn, hstripe⟩ := (h.listed n _).mp hlist
  have hnot : t ∉ s.users n := by
    rintro (hslot | hbetween)
    · exact habsent n hslot hobject
    · rw [hplace] at hbetween
      exact hbetween
  have hnow : Between (Place.unlock object .ACQUIRE (some n)) n := rfl
  simp only [next, hplace, Option.some.injEq] at hnext
  subst hnext
  refine h.counted hplace ?_ (fun m hm => ?_)
    (fun _ => rfl) (fun _ => rfl) (fun _ => rfl) rfl (fun u hu hlock => ?_) ?_
  · rw [users_of_between hnow, Set.ncard_insert_of_notMem hnot (h.finite n), h.threadCount n hn]
    exact (BitVec.ofNat_add _ _).symm
  · exact iff_of_false (fun h' => hm h'.symm) not_false
  · refine absurd (h.critical_unique (t := t) ?_ hlock) hu
    rw [hplace, hobject]
    rfl
  · refine ⟨rfl, fun m hm => ?_, n, rfl, hn, ?_⟩
    · rw [counts_object]
      exact habsent m hm
    · rw [counts_object]
      exact hobject

theorem Consistent.setCount (h : Consistent stripeOf s)
    (hfew : s.Few) {why : usage}
    (hplace : s.place t = .setCount object why n) {s' : Threads Obj Stripe Thread}
    (hnext : next stripeOf s t = some s') : Consistent stripeOf s' := by
  obtain ⟨rfl, habsent, hlist, hobject, hzero⟩ := h.knows hplace
  obtain ⟨hn, hstripe⟩ := (h.listed n _).mp hlist
  have hnow : Between (Place.unlock object .ACQUIRE (some n)) n := rfl
  simp only [next, hplace, Option.some.injEq] at hnext
  subst hnext
  refine h.counted hplace ?_ (fun m hm => ?_)
    (fun _ => rfl) (fun _ => rfl) (fun _ => rfl) rfl (fun u hu hlock => ?_) ?_
  · rw [users_of_between hnow, h.users_eq_empty hfew hn hzero, insert_empty_eq,
      Set.ncard_singleton]
    rfl
  · exact iff_of_false (fun h' => hm h'.symm) not_false
  · refine absurd (h.critical_unique (t := t) ?_ hlock) hu
    rw [hplace, hobject]
    rfl
  · refine ⟨rfl, fun m hm => ?_, n, rfl, hn, ?_⟩
    · rw [counts_object]
      exact habsent m hm
    · rw [counts_object]
      exact hobject

theorem Consistent.decrement (h : Consistent stripeOf s)
    (hfew : s.Few) (hplace : s.place t = .decrement object n)
    {s' : Threads Obj Stripe Thread} (hnext : next stripeOf s t = some s') :
    Consistent stripeOf s' := by
  obtain ⟨hn, hslot⟩ := h.knows hplace
  have hbetween : Between (s.place t) n := by
    rw [hplace]
    rfl
  have hmem : t ∈ s.users n := .inr hbetween
  simp only [next, hplace, Option.some.injEq] at hnext
  subst hnext
  have hnow : ¬ Between (Place.unlockMutex object n) n := not_false
  refine h.counted hplace ?_ (fun m hm => ?_)
    (fun _ => rfl) (fun _ => rfl) (fun _ => rfl) rfl (fun u hu hlock hzero => ?_) hn
  · have hpos : 0 < (s.users n).ncard := (Set.ncard_pos (h.finite n)).mpr ⟨t, hmem⟩
    have hsub := Set.ncard_sdiff_singleton_of_mem hmem
    have hsum : (s.users n).ncard = (s.users n \ {t}).ncard + 1 := by omega
    rw [users_of_not_between hnow hslot, h.threadCount n hn, hsum, BitVec.ofNat_add]
    have hcancel : BitVec.ofNat 32 1 + -1 = 0 := by decide
    change BitVec.ofNat 32 (s.users n \ {t}).ncard + BitVec.ofNat 32 1 + -1 = _
    rw [BitVec.add_assoc, hcancel]
    exact BitVec.add_zero _
  · exact iff_of_false not_false fun h' => hm h'.symm
  · have hempty := h.users_eq_empty hfew hn hzero
    rw [hempty] at hmem
    exact hmem.elim

omit [DecidableEq Stripe] in
/-- A thread takes or gives back the lock of a list. -/
theorem Consistent.relocked (h : Consistent stripeOf s) {place place' : Place Obj}
    {locks : Stripe → Option Thread} (hplace : s.place t = place)
    (hlocked : ∀ u stripe, locks stripe = some u ↔
      critical stripeOf (Function.update s.place t place' u) = some stripe)
    (hbetween : ∀ m, Between place' m ↔ Between place m)
    (hpending : ∀ o, pending place' o = pending place o)
    (hentering : ∀ m, entering place' m = entering place m)
    (hleaving : ∀ m, leaving place' m = leaving place m)
    (hknows : Knows stripeOf s.data (s.data.threads t) place') :
    Consistent stripeOf (s.shares t s.data locks place') := by
  subst hplace
  refine h.shares h.listed h.unique (fun m hm => ?_) hlocked ?_ fun u _ => h.own u
  · rw [users_of_same (hbetween m)]
    exact h.threadCount m hm
  · refine (h.own t).change (Nat.le_refl _) (fun _ _ => rfl) (fun m hm => .inl ⟨hm, rfl⟩) hpending
      (fun m hm => ?_) hknows
    rw [hentering, hleaving]
    exact (h.own t).mutex m hm

theorem Consistent.locked_taken (h : Consistent stripeOf s) {stripe : Stripe} {place : Place Obj}
    (hfree : s.locks stripe = none) (hnone : critical stripeOf (s.place t) = none)
    (hplace : critical stripeOf place = some stripe) (u : Thread) (stripe' : Stripe) :
    Function.update s.locks stripe (some t) stripe' = some u ↔
      critical stripeOf (Function.update s.place t place u) = some stripe' := by
  by_cases hu : u = t
  · rw [hu, Function.update_self, hplace]
    by_cases hstripe : stripe' = stripe
    · rw [hstripe, Function.update_self]
      exact iff_of_true rfl rfl
    · rw [Function.update_of_ne hstripe, h.locked, hnone]
      exact iff_of_false (fun h' => Option.some_ne_none _ h'.symm) fun h' => hstripe (Option.some.inj h').symm
  · rw [Function.update_of_ne hu, ← h.locked]
    by_cases hstripe : stripe' = stripe
    · rw [hstripe, Function.update_self, hfree]
      exact iff_of_false (fun h' => hu (Option.some.inj h').symm) fun h' => Option.some_ne_none _ h'.symm
    · rw [Function.update_of_ne hstripe]

theorem Consistent.locked_given (h : Consistent stripeOf s) {stripe : Stripe} {place : Place Obj}
    (hsome : critical stripeOf (s.place t) = some stripe) (hplace : critical stripeOf place = none)
    (u : Thread) (stripe' : Stripe) :
    Function.update s.locks stripe none stripe' = some u ↔
      critical stripeOf (Function.update s.place t place u) = some stripe' := by
  by_cases hu : u = t
  · rw [hu, Function.update_self, hplace]
    refine iff_of_false (fun h' => ?_) fun h' => Option.some_ne_none _ h'.symm
    by_cases hstripe : stripe' = stripe
    · rw [hstripe, Function.update_self] at h'
      exact absurd h'.symm (Option.some_ne_none _)
    · rw [Function.update_of_ne hstripe, h.locked, hsome] at h'
      exact hstripe (Option.some.inj h').symm
  · rw [Function.update_of_ne hu]
    by_cases hstripe : stripe' = stripe
    · rw [hstripe, Function.update_self]
      exact iff_of_false (fun h' => Option.some_ne_none _ h'.symm) fun h' => hu (h.critical_unique hsome h')
    · rw [Function.update_of_ne hstripe]
      exact h.locked u stripe'

theorem Consistent.lock (h : Consistent stripeOf s) {why : usage}
    (hplace : s.place t = .lock object why) {s' : Threads Obj Stripe Thread}
    (hnext : next stripeOf s t = some s') : Consistent stripeOf s' := by
  obtain ⟨hwhy, habsent⟩ := h.knows hplace
  obtain ⟨-, hpending⟩ := (h.own t).outside habsent
  rw [hplace] at hpending
  have hnone : critical stripeOf (s.place t) = none := by
    rw [hplace]
    rfl
  -- a thread that leaves an object has its node cached
  have hacquire : why = .ACQUIRE := by
    cases why with
    | ACQUIRE => rfl
    | RELEASE => exact absurd hpending (by simp [pending])
    | CHECK => exact absurd rfl hwhy
  subst hacquire
  simp only [next, hplace] at hnext
  cases hfree : s.locks (stripeOf object) with
  | some u =>
    rw [hfree] at hnext
    exact absurd hnext.symm (Option.some_ne_none _)
  | none =>
    rw [hfree] at hnext
    obtain rfl := Option.some.inj hnext
    exact h.relocked hplace (h.locked_taken hfree hnone rfl) (fun _ => Iff.rfl) (fun _ => rfl)
      (fun _ => rfl) (fun _ => rfl)
      ⟨rfl, habsent, fun n hn => .inl hn, fun n hn => hn, fun n hn => (Option.some_ne_none n hn.symm).elim⟩

theorem Consistent.unlock (h : Consistent stripeOf s) {why : usage} {result : Option Nat}
    (hplace : s.place t = .unlock object why result) {s' : Threads Obj Stripe Thread}
    (hnext : next stripeOf s t = some s') : Consistent stripeOf s' := by
  obtain ⟨rfl, habsent, n, rfl, hn, hobject⟩ := h.knows hplace
  have hsome : critical stripeOf (s.place t) = some (stripeOf object) := by
    rw [hplace]
    rfl
  simp only [next, hplace, Option.some.injEq] at hnext
  subst hnext
  exact h.relocked hplace (h.locked_given hsome rfl) (fun _ => Iff.rfl) (fun _ => rfl)
    (fun _ => rfl) (fun _ => rfl) ⟨rfl, habsent, hn, hobject⟩

omit [DecidableEq Obj] [DecidableEq Stripe] in
/-- A node is saved with a count of one. -/
theorem save_eq (data : SyncState Obj Stripe Thread) (t : Thread) (n : Nat) :
    ∃ tls, save data t n = data.setThread t tls ∧
      (cached tls).Perm ((n, 1) :: cached (data.threads t)) := by
  unfold save
  dsimp only
  cases hkey : (data.threads t).SYNC_DATA_DIRECT_KEY with
  | none =>
    refine ⟨_, rfl, .of_eq ?_⟩
    simp [cached, hkey]
  | some m =>
    refine ⟨_, rfl, ?_⟩
    simp only [cached, hkey, List.map_append, ← List.append_assoc]
    exact List.perm_append_singleton _ _

theorem Consistent.save (h : Consistent stripeOf s) {why : usage}
    (hplace : s.place t = .save object why n) {s' : Threads Obj Stripe Thread}
    (hnext : next stripeOf s t = some s') : Consistent stripeOf s' := by
  obtain ⟨rfl, habsent, hn, hobject⟩ := h.knows hplace
  obtain ⟨tls, hsave, hnew⟩ := save_eq s.data t n
  have hslots : (slots tls).Perm (n :: slots (s.data.threads t)) := hnew.map Prod.fst
  simp only [next, hplace, nextSave, Option.some.injEq] at hnext
  rw [if_neg (not_not_intro hobject), hsave, moves_setThread] at hnext
  subst hnext
  have hown := h.own t
  rw [hplace] at hown
  refine h.moves (hown.saved hnew hn hobject habsent (h.ne_object hn) (fun _ => rfl) (fun _ => rfl)
    fun _ => rfl) (fun m => ?_) ?_
  · have husers : t ∈ s.users m ↔ m ∈ slots (s.data.threads t) ∨ n = m := by
      change _ ∨ Between (s.place t) m ↔ _
      rw [hplace]
      rfl
    rw [husers, hslots.mem_iff, List.mem_cons]
    constructor
    · rintro ((rfl | hm) | hm)
      · exact .inr rfl
      · exact .inl hm
      · exact hm.elim
    · rintro (hm | rfl)
      · exact .inl (.inr hm)
      · exact .inl (.inl rfl)
  · rw [hplace]
    rfl

/-- A node with another object. -/
def reassigns (data : SyncState Obj Stripe Thread) (n : Nat) (object : Obj) :
    SyncState Obj Stripe Thread :=
  data.setNode n { data.nodes n with object := object }

omit [DecidableEq Obj] [DecidableEq Stripe] [DecidableEq Thread] in
theorem reassigns_of_ne (data : SyncState Obj Stripe Thread) {n m : Nat} (object : Obj)
    (hm : m ≠ n) : (reassigns data n object).nodes m = data.nodes m :=
  Function.update_of_ne hm _ _

omit [DecidableEq Obj] [DecidableEq Stripe] [DecidableEq Thread] in
theorem reassigns_self (data : SyncState Obj Stripe Thread) (n : Nat) (object : Obj) :
    (reassigns data n object).nodes n = { data.nodes n with object := object } :=
  Function.update_self _ _ _

omit [DecidableEq Obj] [DecidableEq Stripe] [DecidableEq Thread] in
theorem reassigns_counts (data : SyncState Obj Stripe Thread) (n m : Nat) (object : Obj) :
    ((reassigns data n object).nodes m).threadCount = (data.nodes m).threadCount ∧
      ((reassigns data n object).nodes m).mutex = (data.nodes m).mutex := by
  by_cases hm : m = n
  · rw [hm, reassigns_self]
    exact ⟨rfl, rfl⟩
  · rw [reassigns_of_ne data object hm]
    exact ⟨rfl, rfl⟩

/-- Only a node that nobody uses is given to another object. -/
theorem Consistent.reuse (h : Consistent stripeOf s)
    (hfew : s.Few) {why : usage}
    (hplace : s.place t = .reuse object why n) {s' : Threads Obj Stripe Thread}
    (hnext : next stripeOf s t = some s') : Consistent stripeOf s' := by
  obtain ⟨rfl, habsent, hlist, hzero, hother⟩ := h.knows hplace
  obtain ⟨hn, hstripe⟩ := (h.listed n _).mp hlist
  have hempty := h.users_eq_empty hfew hn hzero
  have hunused (u : Thread) : u ∉ s.users n := hempty ▸ Set.notMem_empty u
  have hnew (m : Nat) (hm : m < s.data.allocated) : (s.data.nodes m).object ≠ object := by
    intro heq
    exact hother m ((h.listed m _).mpr ⟨hm, by rw [heq]⟩) heq
  have houtside (u : Thread) : s.inside u object = 0 ∧ pending (s.place u) object = 0 := by
    refine (h.own u).outside fun m hm => hnew m ((h.own u).slot m hm).1
  have hcritical : critical stripeOf (s.place t) = some (stripeOf object) := by
    rw [hplace]
    rfl
  have hsame (m : Nat) : stripeOf ((reassigns s.data n object).nodes m).object =
      stripeOf (s.data.nodes m).object := by
    by_cases hm : m = n
    · rw [hm, reassigns_self, hstripe]
    · rw [reassigns_of_ne s.data object hm]
  have hnodes (u : Thread) (m : Nat) (hm : m < s.data.allocated) :
      m < s.data.allocated ∧
          ((reassigns s.data n object).nodes m).object = (s.data.nodes m).object ∨
        m ∉ slots (s.data.threads u) ∧
          s.inside u ((reassigns s.data n object).nodes m).object = 0 ∧
            pending (s.place u) ((reassigns s.data n object).nodes m).object = 0 := by
    by_cases hmn : m = n
    · rw [hmn, reassigns_self]
      exact .inr ⟨fun hslot => hunused u (.inl hslot), houtside u⟩
    · rw [reassigns_of_ne s.data object hmn]
      exact .inl ⟨hm, rfl⟩
  simp only [next, hplace, Option.some.injEq] at hnext
  subst hnext
  change Consistent stripeOf (s.shares t (reassigns s.data n object) s.locks (.setCount object _ n))
  refine h.shares (fun m stripe => ?_) (fun m m' hm hm' heq => ?_) (fun m hm => ?_)
    (fun u stripe => ?_) ?_ fun u hu => ?_
  · rw [hsame]
    exact h.listed m stripe
  · by_cases hmn : m = n
    · by_cases hmn' : m' = n
      · rw [hmn, hmn']
      · rw [hmn, reassigns_self, reassigns_of_ne s.data object hmn'] at heq
        exact absurd heq.symm (hnew m' hm')
    · rw [reassigns_of_ne s.data object hmn] at heq
      by_cases hmn' : m' = n
      · rw [hmn', reassigns_self] at heq
        exact absurd heq (hnew m hm)
      · rw [reassigns_of_ne s.data object hmn'] at heq
        exact h.unique m m' hm hm' heq
  · rw [(reassigns_counts s.data n m object).1, users_of_same (by rw [hplace]; exact Iff.rfl)]
    exact h.threadCount m hm
  · rw [h.locked]
    by_cases hu : u = t
    · rw [hu, Function.update_self, hplace]
      rfl
    · rw [Function.update_of_ne hu]
  · refine (h.own t).change (Nat.le_refl _) (fun m hm => ?_) (hnodes t) (fun o => ?_)
      (fun m hm => ?_) ⟨rfl, fun m hm => ?_, hlist, ?_, ?_⟩
    · have hmn : m ≠ n := fun heq => hunused t (.inl (heq ▸ hm))
      rw [reassigns_of_ne s.data object hmn]
    · rw [hplace]
      rfl
    · have hmutex := (h.own t).mutex m hm
      rw [hplace] at hmutex
      rw [(reassigns_counts s.data n m object).2]
      exact hmutex
    · have hmn : m ≠ n := fun heq => hunused t (.inl (heq ▸ hm))
      rw [reassigns_of_ne s.data object hmn]
      exact habsent m hm
    · rw [reassigns_self]
    · rw [reassigns_self]
      exact hzero
  · refine (h.own u).frame ⟨Nat.le_refl _, fun m hm huses => ?_, fun _ _ => rfl, fun m _ _ hcount => ?_⟩
      h.listed (hnodes u) (fun m hm => .inl ⟨hm, by rw [(reassigns_counts s.data n m object).2]⟩)
    · have hmn : m ≠ n := by
        rintro rfl
        obtain hslot | hbetween | hlock := huses
        · exact hunused u (.inl hslot)
        · exact hunused u (.inr hbetween)
        · rw [hstripe] at hlock
          exact hu (h.critical_unique hcritical hlock)
      rw [reassigns_of_ne s.data object hmn]
    · rw [(reassigns_counts s.data n m object).1]
      exact hcount

omit [DecidableEq Stripe] in
theorem Consistent.lt_of_mem_users (h : Consistent stripeOf s) (ht : t ∈ s.users n) :
    n < s.data.allocated := by
  have hknows := (h.own t).knows
  obtain hslot | hbetween := ht
  · exact ((h.own t).slot n hslot).1
  · cases hplace : s.place t with
    | unlock object why result =>
      rw [hplace] at hbetween hknows
      obtain ⟨-, -, m, rfl, hm, -⟩ := hknows
      obtain rfl : m = n := hbetween
      exact hm
    | save object why m =>
      rw [hplace] at hbetween hknows
      obtain rfl : m = n := hbetween
      exact hknows.2.2.1
    | decrement object m =>
      rw [hplace] at hbetween hknows
      obtain rfl : m = n := hbetween
      exact hknows.1
    | _ =>
      rw [hplace] at hbetween
      exact hbetween.elim

omit [DecidableEq Obj] [DecidableEq Thread] in
theorem addNode_nodes (data : SyncState Obj Stripe Thread) (object : Obj) (stripe : Stripe)
    {m : Nat} (hm : m < data.allocated) : (addNode data object stripe).nodes m = data.nodes m :=
  Function.update_of_ne hm.ne _ _

omit [DecidableEq Obj] [DecidableEq Thread] in
theorem addNode_new (data : SyncState Obj Stripe Thread) (object : Obj) (stripe : Stripe) :
    (addNode data object stripe).nodes data.allocated = ⟨object, 1, .unlocked⟩ :=
  Function.update_self _ _ _

omit [DecidableEq Obj] [DecidableEq Thread] in
theorem mem_addNode_lists (data : SyncState Obj Stripe Thread) (object : Obj)
    (stripe stripe' : Stripe) (m : Nat) :
    m ∈ (addNode data object stripe).lists stripe' ↔
      stripe' = stripe ∧ m = data.allocated ∨ m ∈ data.lists stripe' := by
  by_cases hstripe : stripe' = stripe
  · rw [hstripe]
    have hlist : (addNode data object stripe).lists stripe =
        data.allocated :: data.lists stripe := Function.update_self _ _ _
    rw [hlist, List.mem_cons, and_iff_right rfl]
  · have hlist : (addNode data object stripe).lists stripe' = data.lists stripe' :=
      Function.update_of_ne hstripe _ _
    rw [hlist]
    exact (or_iff_right fun h => hstripe h.1).symm

theorem Consistent.allocate (h : Consistent stripeOf s) {why : usage}
    (hplace : s.place t = .allocate object why) {s' : Threads Obj Stripe Thread}
    (hnext : next stripeOf s t = some s') : Consistent stripeOf s' := by
  obtain ⟨rfl, habsent, hother⟩ := h.knows hplace
  have hcritical : critical stripeOf (s.place t) = some (stripeOf object) := by
    rw [hplace]
    rfl
  have hempty : s.users s.data.allocated = ∅ :=
    Set.eq_empty_of_forall_notMem fun u hu => absurd (h.lt_of_mem_users hu) (Nat.lt_irrefl _)
  have hnew (m : Nat) (hm : m < s.data.allocated) : (s.data.nodes m).object ≠ object := by
    intro heq
    exact hother m ((h.listed m _).mpr ⟨hm, by rw [heq]⟩) heq
  have houtside (u : Thread) : s.inside u object = 0 ∧ pending (s.place u) object = 0 :=
    (h.own u).outside fun m hm => hnew m ((h.own u).slot m hm).1
  have hslot (u : Thread) : s.data.allocated ∉ slots (s.data.threads u) := fun hmem =>
    absurd ((h.own u).slot _ hmem).1 (Nat.lt_irrefl _)
  have hnodes (u : Thread) (m : Nat) (hm : m < s.data.allocated + 1) :
      m < s.data.allocated ∧
          ((addNode s.data object (stripeOf object)).nodes m).object = (s.data.nodes m).object ∨
        m ∉ slots (s.data.threads u) ∧
          s.inside u ((addNode s.data object (stripeOf object)).nodes m).object = 0 ∧
            pending (s.place u) ((addNode s.data object (stripeOf object)).nodes m).object = 0 := by
    obtain hold | rfl := Nat.lt_succ_iff_lt_or_eq.mp hm
    · exact .inl ⟨hold, by rw [addNode_nodes _ _ _ hold]⟩
    · rw [addNode_new]
      exact .inr ⟨hslot u, houtside u⟩
  simp only [next, hplace, Option.some.injEq] at hnext
  subst hnext
  change Consistent stripeOf (s.shares t (addNode s.data object (stripeOf object)) s.locks
    (.unlock object _ (some s.data.allocated)))
  refine h.shares (fun m stripe => ?_) (fun m m' hm hm' heq => ?_) (fun m hm => ?_)
    (fun u stripe => ?_) ?_ fun u hu => ?_
  · rw [mem_addNode_lists, h.listed]
    change _ ↔ m < s.data.allocated + 1 ∧ _
    rw [Nat.lt_succ_iff_lt_or_eq]
    by_cases hold : m < s.data.allocated
    · rw [addNode_nodes _ _ _ hold]
      simp only [hold, hold.ne, true_and, and_false, false_or, or_false]
    · by_cases heq : m = s.data.allocated
      · rw [heq, addNode_new]
        simp only [Nat.lt_irrefl, false_and, or_false, and_true, or_true, true_and]
        exact eq_comm
      · simp only [hold, heq, false_and, and_false, or_false]
  · obtain hold | rfl := Nat.lt_succ_iff_lt_or_eq.mp hm
    · rw [addNode_nodes _ _ _ hold] at heq
      obtain hold' | rfl := Nat.lt_succ_iff_lt_or_eq.mp hm'
      · rw [addNode_nodes _ _ _ hold'] at heq
        exact h.unique m m' hold hold' heq
      · rw [addNode_new] at heq
        exact absurd heq (hnew m hold)
    · obtain hold' | rfl := Nat.lt_succ_iff_lt_or_eq.mp hm'
      · rw [addNode_new, addNode_nodes _ _ _ hold'] at heq
        exact absurd heq.symm (hnew m' hold')
      · rfl
  · obtain hold | rfl := Nat.lt_succ_iff_lt_or_eq.mp hm
    · have hsame : Between (Place.unlock object .ACQUIRE (some s.data.allocated)) m ↔
          Between (s.place t) m := by
        rw [hplace]
        exact iff_of_false (fun h' => hold.ne' h') not_false
      rw [addNode_nodes _ _ _ hold, users_of_same hsame]
      exact h.threadCount m hold
    · have hnow : Between (Place.unlock object .ACQUIRE (some s.data.allocated)) s.data.allocated :=
        rfl
      rw [addNode_new, users_of_between hnow, hempty, insert_empty_eq, Set.ncard_singleton]
      rfl
  · rw [h.locked]
    by_cases hu : u = t
    · rw [hu, Function.update_self, hplace]
      rfl
    · rw [Function.update_of_ne hu]
  · refine (h.own t).change (Nat.le_succ _) (fun m hm => ?_) (hnodes t) (fun o => ?_)
      (fun m hm => ?_) ⟨rfl, fun m hm => ?_, s.data.allocated, rfl, Nat.lt_succ_self _, ?_⟩
    · rw [addNode_nodes _ _ _ ((h.own t).slot m hm).1]
    · rw [hplace]
      rfl
    · obtain hold | rfl := Nat.lt_succ_iff_lt_or_eq.mp hm
      · have hmutex := (h.own t).mutex m hold
        rw [hplace] at hmutex
        rw [addNode_nodes _ _ _ hold]
        exact hmutex
      · rw [addNode_new, lockCount_of_notMem (hslot t)]
        rfl
    · rw [addNode_nodes _ _ _ ((h.own t).slot m hm).1]
      exact habsent m hm
    · rw [addNode_new]
  · refine (h.own u).frame ⟨Nat.le_succ _, fun m hm _ => ?_, fun stripe hlock => ?_,
      fun m hm _ hcount => ?_⟩ h.listed (hnodes u) (fun m hm => ?_)
    · rw [addNode_nodes _ _ _ hm]
    · have hstripe : stripe ≠ stripeOf object := by
        rintro rfl
        exact hu (h.critical_unique hcritical hlock)
      exact Function.update_of_ne hstripe _ _
    · rw [addNode_nodes _ _ _ hm]
      exact hcount
    · obtain hold | rfl := Nat.lt_succ_iff_lt_or_eq.mp hm
      · exact .inl ⟨hold, by rw [addNode_nodes _ _ _ hold]⟩
      · exact .inr ⟨Nat.le_refl _, by rw [addNode_new]; rfl⟩

/-! ## The mutex, and the calls -/

omit [DecidableEq Stripe] in
/-- How deep a thread is inside an object is counted by the call or by the thread. -/
theorem Own.deeper {data data' : SyncState Obj Stripe Thread} {tls : ThreadData}
    {place place' : Place Obj} {inside inside' : Obj → Nat}
    (h : Own stripeOf data t tls place inside) (hallocated : data'.allocated = data.allocated)
    (hobject : ∀ m, (data'.nodes m).object = (data.nodes m).object)
    (htotal : ∀ o, inside' o + pending place' o = inside o + pending place o)
    (hmutex : ∀ m, m < data.allocated →
      (data'.nodes m).mutex.depth t + entering place' m = lockCount tls m + leaving place' m)
    (hknows : Knows stripeOf data' tls place') : Own stripeOf data' t tls place' inside' where
  nodup := h.nodup
  slot m hm := by
    rw [hallocated]
    exact h.slot m hm
  depth m hm := by
    rw [hallocated] at hm
    rw [hobject, htotal]
    exact h.depth m hm
  entered o hpos := by
    rw [htotal] at hpos
    obtain ⟨m, hm, ho⟩ := h.entered o hpos
    exact ⟨m, hallocated ▸ hm, (hobject m).trans ho⟩
  mutex m hm := hmutex m (hallocated ▸ hm)
  knows := hknows

omit [DecidableEq Obj] [DecidableEq Stripe] [DecidableEq Thread] in
theorem setMutex_object (data : SyncState Obj Stripe Thread) (n m : Nat)
    (mutex : recursive_mutex_t Thread) :
    ((data.setMutex n mutex).nodes m).object = (data.nodes m).object ∧
      ((data.setMutex n mutex).nodes m).threadCount = (data.nodes m).threadCount := by
  by_cases hm : m = n
  · rw [hm]
    have hself : (data.setMutex n mutex).nodes n = { data.nodes n with mutex := mutex } :=
      Function.update_self _ _ _
    rw [hself]
    exact ⟨rfl, rfl⟩
  · have hother : (data.setMutex n mutex).nodes m = data.nodes m := Function.update_of_ne hm _ _
    rw [hother]
    exact ⟨rfl, rfl⟩

omit [DecidableEq Obj] [DecidableEq Stripe] [DecidableEq Thread] in
theorem setMutex_mutex (data : SyncState Obj Stripe Thread) (n m : Nat)
    (mutex : recursive_mutex_t Thread) :
    ((data.setMutex n mutex).nodes m).mutex = if m = n then mutex else (data.nodes m).mutex := by
  split_ifs with hm
  · have hself : (data.setMutex n mutex).nodes n = { data.nodes n with mutex := mutex } :=
      Function.update_self _ _ _
    rw [hm, hself]
  · exact congrArg SyncData.mutex (Function.update_of_ne hm _ _)

/-- A thread locks or unlocks the mutex of a node. -/
def Threads.mutexes (s : Threads Obj Stripe Thread) (t : Thread) (n : Nat)
    (mutex : recursive_mutex_t Thread) (inside : Obj → Nat) : Threads Obj Stripe Thread where
  data := s.data.setMutex n mutex
  locks := s.locks
  place := Function.update s.place t .outside
  inside := Function.update s.inside t inside

omit [DecidableEq Obj] [DecidableEq Stripe] in
theorem users_mutexes {mutex : recursive_mutex_t Thread} {inside : Obj → Nat} {m : Nat}
    (hbetween : ¬ Between (s.place t) m) : (s.mutexes t n mutex inside).users m = s.users m := by
  ext u
  change m ∈ slots (s.data.threads u) ∨ Between (Function.update s.place t .outside u) m ↔
    m ∈ slots (s.data.threads u) ∨ Between (s.place u) m
  by_cases hu : u = t
  · rw [hu, Function.update_self]
    exact or_congr_right (iff_of_false not_false hbetween)
  · rw [Function.update_of_ne hu]

omit [DecidableEq Stripe] in
theorem Consistent.mutexed (h : Consistent stripeOf s) {mutex : recursive_mutex_t Thread}
    {inside : Obj → Nat} (hdepth : ∀ u, u ≠ t → mutex.depth u = (s.data.nodes n).mutex.depth u)
    (htotal : ∀ o, inside o = s.inside t o + pending (s.place t) o)
    (hentering : ∀ m, m ≠ n → entering (s.place t) m = 0 ∧ leaving (s.place t) m = 0)
    (hmutex : n < s.data.allocated → mutex.depth t = lockCount (s.data.threads t) n)
    (hbetween : ∀ m, ¬ Between (s.place t) m) (hcritical : critical stripeOf (s.place t) = none) :
    Consistent stripeOf (s.mutexes t n mutex inside) where
  listed m stripe := by
    change m ∈ s.data.lists stripe ↔
      m < s.data.allocated ∧ stripeOf ((s.data.setMutex n mutex).nodes m).object = stripe
    rw [(setMutex_object s.data n m mutex).1]
    exact h.listed m stripe
  unique m m' hm hm' heq := by
    change ((s.data.setMutex n mutex).nodes m).object =
      ((s.data.setMutex n mutex).nodes m').object at heq
    rw [(setMutex_object s.data n m mutex).1, (setMutex_object s.data n m' mutex).1] at heq
    exact h.unique m m' hm hm' heq
  finite m := by
    rw [users_mutexes (hbetween m)]
    exact h.finite m
  threadCount m hm := by
    rw [users_mutexes (hbetween m)]
    exact (setMutex_object s.data n m mutex).2.trans (h.threadCount m hm)
  locked u stripe := by
    change s.locks stripe = some u ↔
      critical stripeOf (Function.update s.place t .outside u) = some stripe
    rw [h.locked]
    by_cases hu : u = t
    · rw [hu, Function.update_self, hcritical]
      rfl
    · rw [Function.update_of_ne hu]
  own u := by
    by_cases hu : u = t
    · subst hu
      change Own stripeOf (s.data.setMutex n mutex) u (s.data.threads u)
        (Function.update s.place u .outside u) (Function.update s.inside u inside u)
      rw [Function.update_self, Function.update_self]
      refine (h.own u).deeper rfl (fun m => (setMutex_object s.data n m mutex).1) htotal
        (fun m hm => ?_) trivial
      rw [setMutex_mutex]
      split_ifs with hmn
      · rw [hmn] at hm ⊢
        exact hmutex hm
      · have hold := (h.own u).mutex m hm
        rw [(hentering m hmn).1, (hentering m hmn).2] at hold
        exact hold
    · change Own stripeOf (s.data.setMutex n mutex) u (s.data.threads u)
        (Function.update s.place t .outside u) (Function.update s.inside t inside u)
      rw [Function.update_of_ne hu, Function.update_of_ne hu]
      refine (h.own u).frame ⟨Nat.le_refl _, fun m _ _ => (setMutex_object s.data n m mutex).1,
        fun _ _ => rfl, fun m _ _ hcount => (setMutex_object s.data n m mutex).2.trans hcount⟩ h.listed
        (fun m hm => .inl ⟨hm, (setMutex_object s.data n m mutex).1⟩) fun m hm => .inl ⟨hm, ?_⟩
      rw [setMutex_mutex]
      split_ifs with hmn
      · rw [hmn]
        exact hdepth u hu
      · rfl

omit [DecidableEq Obj] [DecidableEq Stripe] in
theorem tryLock_depth {mutex mutex' : recursive_mutex_t Thread}
    (h : mutex.tryLock t = some mutex') :
    mutex'.depth t = mutex.depth t + 1 ∧ ∀ u, u ≠ t → mutex'.depth u = mutex.depth u := by
  obtain ⟨held⟩ := mutex
  unfold recursive_mutex_t.tryLock at h
  unfold recursive_mutex_t.depth
  cases held with
  | none =>
    obtain rfl := Option.some.inj h
    exact ⟨if_pos rfl, fun u hu => if_neg hu.symm⟩
  | some owned =>
    obtain ⟨owner, again⟩ := owned
    dsimp only at h ⊢
    split_ifs at h with howner
    obtain rfl := Option.some.inj h
    dsimp only
    rw [if_pos rfl, if_pos howner]
    refine ⟨rfl, fun u hu => ?_⟩
    rw [if_neg hu.symm, if_neg fun heq => hu (heq.symm.trans howner)]

omit [DecidableEq Obj] [DecidableEq Stripe] in
theorem tryUnlock_depth {mutex mutex' : recursive_mutex_t Thread}
    (h : mutex.tryUnlock t = some mutex') :
    mutex'.depth t + 1 = mutex.depth t ∧ ∀ u, u ≠ t → mutex'.depth u = mutex.depth u := by
  obtain ⟨held⟩ := mutex
  unfold recursive_mutex_t.tryUnlock at h
  unfold recursive_mutex_t.depth
  cases held with
  | none => exact absurd h.symm (Option.some_ne_none _)
  | some owned =>
    obtain ⟨owner, again⟩ := owned
    dsimp only at h ⊢
    split_ifs at h with howner hagain
    · obtain rfl := Option.some.inj h
      rw [if_pos howner, hagain]
      exact ⟨rfl, fun u hu => (if_neg fun heq => hu (heq.symm.trans howner)).symm⟩
    · obtain rfl := Option.some.inj h
      dsimp only
      rw [if_pos rfl, if_pos howner]
      refine ⟨by omega, fun u hu => ?_⟩
      rw [if_neg hu.symm, if_neg fun heq => hu (heq.symm.trans howner)]

omit [DecidableEq Obj] [DecidableEq Stripe] in
theorem depth_of_tryUnlock_none {mutex : recursive_mutex_t Thread} (h : mutex.tryUnlock t = none) :
    mutex.depth t = 0 := by
  rw [recursive_mutex_t.tryUnlock_eq_none_iff] at h
  obtain ⟨held⟩ := mutex
  cases held with
  | none => rfl
  | some owned => exact if_neg fun heq => h ⟨owned.2, by rw [← heq]⟩

theorem Consistent.lockMutex (h : Consistent stripeOf s)
    (hplace : s.place t = .lockMutex object n) {s' : Threads Obj Stripe Thread}
    (hnext : next stripeOf s t = some s') : Consistent stripeOf s' := by
  simp only [next, hplace] at hnext
  cases hlock : (s.data.nodes n).mutex.tryLock t with
  | none =>
    rw [hlock] at hnext
    exact absurd hnext.symm (Option.some_ne_none _)
  | some mutex =>
    rw [hlock] at hnext
    obtain rfl := Option.some.inj hnext
    obtain ⟨hdepth, hothers⟩ := tryLock_depth hlock
    change Consistent stripeOf (s.mutexes t n mutex
      (Function.update (s.inside t) object (s.inside t object + 1)))
    refine h.mutexed hothers (fun o => ?_) (fun m hm => ?_) (fun hn => ?_) (fun m => ?_) ?_
    · rw [hplace]
      by_cases ho : o = object
      · rw [ho, Function.update_self]
        exact congrArg (_ + ·) (if_pos rfl).symm
      · have hother : pending (.lockMutex object n) o = 0 := if_neg (Ne.symm ho)
        rw [Function.update_of_ne ho, hother]
        rfl
    · rw [hplace]
      exact ⟨if_neg hm.symm, rfl⟩
    · have hold := (h.own t).mutex n hn
      have hone : entering (.lockMutex object n) n = 1 := if_pos rfl
      rw [hplace, hone] at hold
      exact hdepth.trans hold
    · rw [hplace]
      exact not_false
    · rw [hplace]
      rfl

theorem Consistent.unlockMutex (h : Consistent stripeOf s)
    (hplace : s.place t = .unlockMutex object n) {s' : Threads Obj Stripe Thread}
    (hnext : next stripeOf s t = some s') : Consistent stripeOf s' := by
  have hn : n < s.data.allocated := h.knows hplace
  have hold := (h.own t).mutex n hn
  have hone : leaving (.unlockMutex object n) n = 1 := if_pos rfl
  have hzero : entering (.unlockMutex object n) n = 0 := rfl
  rw [hplace, hone, hzero] at hold
  simp only [next, hplace] at hnext
  cases hunlock : (s.data.nodes n).mutex.tryUnlock t with
  | none =>
    rw [depth_of_tryUnlock_none hunlock] at hold
    omega
  | some mutex =>
    rw [hunlock] at hnext
    obtain rfl := Option.some.inj hnext
    obtain ⟨hdepth, hothers⟩ := tryUnlock_depth hunlock
    have hsame : (s.setData (s.data.setMutex n mutex)).goes t .outside =
        s.mutexes t n mutex (s.inside t) := by
      simp only [Threads.setData, Threads.goes, Threads.mutexes, Function.update_eq_self]
    rw [hsame]
    refine h.mutexed hothers (fun o => ?_) (fun m hm => ?_) (fun _ => by omega) (fun m => ?_) ?_
    · rw [hplace]
      rfl
    · rw [hplace]
      exact ⟨rfl, if_neg hm.symm⟩
    · rw [hplace]
      exact not_false
    · rw [hplace]
      rfl

omit [DecidableEq Stripe] in
theorem Consistent.enter (h : Consistent stripeOf s) (hplace : s.place t = .outside) :
    Consistent stripeOf (s.goes t (.fastCache object .ACQUIRE)) :=
  h.goes hplace ⟨fun _ => rfl, fun _ => rfl, fun _ => rfl, fun _ => Iff.rfl, rfl⟩ nofun

omit [DecidableEq Stripe] in
theorem Consistent.exit (h : Consistent stripeOf s) (hplace : s.place t = .outside)
    (hinside : s.inside t object ≠ 0) :
    Consistent stripeOf ((s.setInside t object (s.inside t object - 1)).goes t
      (.fastCache object .RELEASE)) := by
  have hmoves : (s.setInside t object (s.inside t object - 1)).goes t (.fastCache object .RELEASE) =
      s.moves t (s.data.threads t) (.fastCache object .RELEASE)
        (Function.update (s.inside t) object (s.inside t object - 1)) := by
    simp only [Threads.goes, Threads.setInside, Threads.moves, SyncState.setThread,
      Function.update_eq_self]
  have hown := h.own t
  rw [hplace] at hown
  rw [hmoves]
  refine h.moves (hown.deeper rfl (fun _ => rfl) (fun o => ?_) hown.mutex nofun) (fun m => ?_) ?_
  · by_cases ho : o = object
    · have hone : pending (.fastCache object .RELEASE) object = 1 := if_pos rfl
      rw [ho, Function.update_self, hone]
      exact Nat.sub_add_cancel (Nat.pos_of_ne_zero hinside)
    · have hnone : pending (.fastCache object .RELEASE) o = 0 := if_neg (Ne.symm ho)
      rw [Function.update_of_ne ho, hnone]
      rfl
  · change _ ↔ m ∈ slots (s.data.threads t) ∨ Between (s.place t) m
    rw [hplace]
    exact Iff.rfl
  · rw [hplace]
    rfl

theorem Consistent.next (h : Consistent stripeOf s)
    (hfew : s.Few) (hroom : HasRoom (s.place t) (s.inside t))
    {s' : Threads Obj Stripe Thread} (hnext : next stripeOf s t = some s') :
    Consistent stripeOf s' := by
  cases hplace : s.place t with
  | outside =>
    simp only [sync.next, hplace] at hnext
    exact absurd hnext.symm (Option.some_ne_none _)
  | fatal message => exact (h.knows hplace).elim
  | fastCache object why => exact h.fastCache hplace hnext
  | fastMatched object why n => exact h.fastMatched hfew hplace hroom hnext
  | listCache object why i => exact h.listCache hplace hnext
  | listMatched object why i item => exact h.listMatched hfew hplace hroom hnext
  | decrement object n => exact h.decrement hfew hplace hnext
  | lock object why => exact h.lock hplace hnext
  | walk object why p firstUnused => exact h.walk hplace hnext
  | increment object why n => exact h.increment hplace hnext
  | reuse object why n => exact h.reuse hfew hplace hnext
  | setCount object why n => exact h.setCount hfew hplace hnext
  | allocate object why => exact h.allocate hplace hnext
  | unlock object why result => exact h.unlock hplace hnext
  | save object why n => exact h.save hplace hnext
  | lockMutex object n => exact h.lockMutex hplace hnext
  | unlockMutex object n => exact h.unlockMutex hplace hnext

theorem Consistent.step (h : Consistent stripeOf s)
    (hfew : s.Few) (hroom : HasRoom (s.place t) (s.inside t))
    {action : Step Obj} {s' : Threads Obj Stripe Thread} (hstep : step stripeOf s t action = some s') :
    Consistent stripeOf s' := by
  cases action with
  | next => exact h.next hfew hroom hstep
  | objc_sync_enter obj =>
    simp only [sync.step] at hstep
    split at hstep
    · next hplace =>
      obtain rfl := Option.some.inj hstep
      exact h.enter hplace
    · obtain rfl := Option.some.inj hstep
      exact h
    · exact absurd hstep.symm (Option.some_ne_none _)
  | objc_sync_exit obj =>
    simp only [sync.step] at hstep
    split at hstep
    · next hplace =>
      split_ifs at hstep with hinside
      obtain rfl := Option.some.inj hstep
      exact h.exit hplace hinside
    · obtain rfl := Option.some.inj hstep
      exact h
    · exact absurd hstep.symm (Option.some_ne_none _)

end kept

end objc_runtime.sync
