-- The runs of atomic getters and setters. They are linearizable as reads and writes of one
-- register, and each value that a setter displaces is released once.
import ObjcRuntime.AtomicProperties

open objc_runtime.runs objc_runtime.linearizability

namespace objc_runtime.atomic_properties

variable {Obj Id : Type}

/-! ## The register -/

/-- A property as a register of one value, for calls at one time only. What a copying setter
writes is what `-copyWithZone:` gave its call. -/
def register (copied : Id → Option Obj → Prop) (value : Option Obj)
    (e : Effect Id (Operation Obj) (Option (Option Obj))) (value' : Option Obj) : Prop :=
  match e.op with
  | .objc_getProperty => e.ret = some value ∧ value' = value
  | .objc_setProperty_atomic newValue => e.ret = none ∧ value' = newValue
  | .objc_setProperty_atomic_copy _ => e.ret = none ∧ copied e.id value'

/-- The calls as their callers see them. -/
def Action.event? : Action Obj Id → Option (Event Id (Operation Obj) (Option (Option Obj)))
  | .invoke call op => some (.invoke call op)
  | .respond call value => some (.respond call value)
  | _ => none

/-- A getter takes effect when it reads the slot, a setter when it writes it, or when it finds
that the slot has its value. -/
def Action.effect? : Action Obj Id → Option (Effect Id (Operation Obj) (Option (Option Obj)))
  | .read call value => some ⟨call, .objc_getProperty, some value⟩
  | .sameValue call newValue => some ⟨call, .objc_setProperty_atomic newValue, none⟩
  | .write call op _ _ => some ⟨call, op, none⟩
  | _ => none

def history (actions : List (Action Obj Id)) : List (Event Id (Operation Obj) (Option (Option Obj))) :=
  actions.filterMap Action.event?

def effects (actions : List (Action Obj Id)) :
    List (Effect Id (Operation Obj) (Option (Option Obj))) :=
  actions.filterMap Action.effect?

/-- The call that is running. -/
def Place.operation : Place Obj → Option (Operation Obj)
  | .idle | .returned => none
  | .getLock | .getRead | .getRetain _ | .getUnlock _ | .getReturn _ => some .objc_getProperty
  | .setCompare newValue | .setRetain newValue => some (.objc_setProperty_atomic newValue)
  | .setCopy newValue => some (.objc_setProperty_atomic_copy newValue)
  | .setLock op _ | .setRead op _ | .setWrite op _ _ | .setUnlock op _ | .setRelease op _
  | .setReturn op => some op

/-- The places before the effect. -/
def Place.pending : Place Obj → Bool
  | .getRetain _ | .getUnlock _ | .getReturn _ | .setUnlock _ _ | .setRelease _ _ | .setReturn _
  | .returned => false
  | _ => true

/-- The effect that a running call has had. -/
def Place.effect (call : Id) : Place Obj → Option (Effect Id (Operation Obj) (Option (Option Obj)))
  | .getRetain value | .getUnlock value | .getReturn value =>
    some ⟨call, .objc_getProperty, some value⟩
  | .setUnlock op _ | .setRelease op _ | .setReturn op => some ⟨call, op, none⟩
  | _ => none

/-- The value that a setter will write. -/
def Place.newValue : Place Obj → Option (Operation Obj × Option Obj)
  | .setLock op newValue | .setRead op newValue | .setWrite op newValue _ => some (op, newValue)
  | _ => none

/-- What a setter writes is its argument or the copy of it. -/
def Writes (actions : List (Action Obj Id)) (call : Id) (op : Operation Obj)
    (newValue : Option Obj) : Prop :=
  op = .objc_setProperty_atomic newValue ∨
    ∃ given, op = .objc_setProperty_atomic_copy given ∧ .copy call newValue ∈ actions

def Copied (actions : List (Action Obj Id)) (call : Id) (newValue : Option Obj) : Prop :=
  .copy call newValue ∈ actions

/-- The effects so far linearize the history so far, and each call is where it says. -/
structure Linear (actions : List (Action Obj Id)) (slot : Option Obj) (h : State Obj Id) : Prop where
  linear : Linearizes (register (Copied actions)) slot (history actions) (effects actions) h.slot
  fresh : ∀ call op, h.place call = .idle → .invoke call op ∉ history actions
  invoked : ∀ call op, (h.place call).operation = some op → .invoke call op ∈ history actions
  pending : ∀ call, (h.place call).pending = true → call ∉ (effects actions).map Effect.id
  effective : ∀ call e, (h.place call).effect call = some e → e ∈ effects actions
  writes : ∀ call op newValue, (h.place call).newValue = some (op, newValue) →
    Writes actions call op newValue

section steps
variable {actions : List (Action Obj Id)} {slot : Option Obj} {h h' : State Obj Id}
  {a : Action Obj Id} {call : Id}

theorem linear_start [DecidableEq Obj] (slot : Option Obj) (others : Obj → Nat) :
    Linear [] slot (start slot others : State Obj Id) where
  linear := linearizes_nil _ slot
  fresh := by simp [history]
  invoked := by simp [start, Place.operation]
  pending := by simp [effects]
  effective := by simp [start, Place.effect]
  writes := by simp [start, Place.newValue]

theorem history_snoc : history (actions ++ [a]) = history actions ++ a.event?.toList := by
  cases h : a.event? <;> simp [history, List.filterMap_append, h]

theorem effects_snoc : effects (actions ++ [a]) = effects actions ++ a.effect?.toList := by
  cases h : a.effect? <;> simp [effects, List.filterMap_append, h]

theorem Writes.snoc {op : Operation Obj} {newValue : Option Obj} (h : Writes actions call op newValue) :
    Writes (actions ++ [a]) call op newValue := by
  rcases h with rfl | ⟨given, rfl, hmem⟩
  · exact .inl rfl
  · exact .inr ⟨given, rfl, List.mem_append_left _ hmem⟩

/-- What was copied before was copied. -/
theorem register_snoc {value value' : Option Obj}
    {e : Effect Id (Operation Obj) (Option (Option Obj))}
    (h : register (Copied actions) value e value') :
    register (Copied (actions ++ [a])) value e value' := by
  unfold register at h ⊢
  split
  · next heq => simpa [heq] using h
  · next heq => simpa [heq] using h
  · next heq =>
    simp only [heq] at h
    exact ⟨h.1, List.mem_append_left _ h.2⟩

/-- An action that no caller sees, with no effect: the calls are at the same places, or one goes
on without one. -/
theorem Linear.silent (hl : Linear actions slot h) (hevent : a.event? = none)
    (heffect : a.effect? = none) (hslot : h'.slot = h.slot)
    (hfresh : ∀ c, h'.place c = .idle → h.place c = .idle)
    (hoperation : ∀ c, (h'.place c).operation = (h.place c).operation)
    (hpending : ∀ c, (h'.place c).pending = (h.place c).pending)
    (heffective : ∀ c, (h'.place c).effect c = (h.place c).effect c)
    (hwrites : ∀ c op newValue, (h'.place c).newValue = some (op, newValue) →
      Writes (actions ++ [a]) c op newValue) :
    Linear (actions ++ [a]) slot h' := by
  have hhistory : history (actions ++ [a]) = history actions := by simp [history_snoc, hevent]
  have heffects : effects (actions ++ [a]) = effects actions := by simp [effects_snoc, heffect]
  constructor
  case linear =>
    rw [hhistory, heffects, hslot]
    exact hl.linear.mono fun _ _ _ => register_snoc
  case fresh => exact fun c op hc => hhistory ▸ hl.fresh c op (hfresh c hc)
  case invoked => exact fun c op hc => hhistory ▸ hl.invoked c op (hoperation c ▸ hc)
  case pending => exact fun c hc => heffects ▸ hl.pending c (hpending c ▸ hc)
  case effective => exact fun c e hc => heffects ▸ hl.effective c e (heffective c ▸ hc)
  case writes => exact hwrites

variable [DecidableEq Id]

/-- A call goes on, and no caller sees it. -/
theorem Linear.goes (hl : Linear actions slot h) {p q : Place Obj} (hp : h.place call = p)
    (hplace : h'.place = Function.update h.place call q) (hslot : h'.slot = h.slot)
    (hevent : a.event? = none) (heffect : a.effect? = none) (hidle : q ≠ .idle)
    (hoperation : q.operation = p.operation) (hpending : q.pending = p.pending)
    (heffective : q.effect call = p.effect call)
    (hwrites : ∀ op newValue, q.newValue = some (op, newValue) →
      p.newValue = some (op, newValue) ∨ Writes (actions ++ [a]) call op newValue) :
    Linear (actions ++ [a]) slot h' := by
  have hself : h'.place call = q := by simp [hplace]
  have hother : ∀ c, c ≠ call → h'.place c = h.place c := by
    intro c hc
    simp [hplace, hc]
  refine hl.silent hevent heffect hslot ?_ ?_ ?_ ?_ ?_
  · intro c hc
    by_cases heq : c = call
    · exact absurd (hself.symm.trans (heq ▸ hc)) hidle
    · rwa [← hother c heq]
  · intro c
    by_cases heq : c = call
    · rw [heq, hself, hp, hoperation]
    · rw [hother c heq]
  · intro c
    by_cases heq : c = call
    · rw [heq, hself, hp, hpending]
    · rw [hother c heq]
  · intro c
    by_cases heq : c = call
    · rw [heq, hself, hp, heffective]
    · rw [hother c heq]
  · intro c op newValue hc
    by_cases heq : c = call
    · rw [heq, hself] at hc
      rcases hwrites op newValue hc with hold | hnew
      · exact heq ▸ (hl.writes call op newValue (hp ▸ hold)).snoc
      · exact heq ▸ hnew
    · rw [hother c heq] at hc
      exact (hl.writes c op newValue hc).snoc

/-- A call has its effect. -/
theorem Linear.takesEffect (hl : Linear actions slot h) {p q : Place Obj} (hp : h.place call = p)
    (hplace : h'.place = Function.update h.place call q)
    {e : Effect Id (Operation Obj) (Option (Option Obj))} (hevent : a.event? = none)
    (heffect : a.effect? = some e) (hid : e.id = call) (hop : p.operation = some e.op)
    (hpending : p.pending = true) (hidle : q ≠ .idle) (hoperation : q.operation = p.operation)
    (heffective : q.effect call = some e) (hdone : q.pending = false) (hwritten : q.newValue = none)
    (hspec : register (Copied actions) h.slot e h'.slot) : Linear (actions ++ [a]) slot h' := by
  have hhistory : history (actions ++ [a]) = history actions := by simp [history_snoc, hevent]
  have heffects : effects (actions ++ [a]) = effects actions ++ [e] := by
    simp [effects_snoc, heffect]
  have hself : h'.place call = q := by simp [hplace]
  have hother : ∀ c, c ≠ call → h'.place c = h.place c := by
    intro c hc
    simp [hplace, hc]
  constructor
  case linear =>
    rw [hhistory, heffects]
    refine (hl.linear.mono fun _ _ _ => register_snoc).takesEffect ?_ ?_ (register_snoc hspec)
    · rw [hid]
      exact hl.invoked call e.op (hp ▸ hop)
    · rw [hid]
      exact hl.pending call (hp ▸ hpending)
  case fresh =>
    intro c op hc
    by_cases heq : c = call
    · exact absurd (hself.symm.trans (heq ▸ hc)) hidle
    · exact hhistory ▸ hl.fresh c op (hother c heq ▸ hc)
  case invoked =>
    intro c op hc
    rw [hhistory]
    by_cases heq : c = call
    · rw [heq, hself, hoperation, ← hp] at hc
      exact heq ▸ hl.invoked call op hc
    · exact hl.invoked c op (hother c heq ▸ hc)
  case pending =>
    intro c hc
    by_cases heq : c = call
    · rw [heq, hself, hdone] at hc
      cases hc
    · rw [hother c heq] at hc
      simpa [heffects, hid, heq] using hl.pending c hc
  case effective =>
    intro c e' hc
    rw [heffects]
    by_cases heq : c = call
    · rw [heq, hself, heffective] at hc
      simp [Option.some.inj hc]
    · exact List.mem_append_left _ (hl.effective c e' (hother c heq ▸ hc))
  case writes =>
    intro c op newValue hc
    by_cases heq : c = call
    · rw [heq, hself, hwritten] at hc
      cases hc
    · exact (hl.writes c op newValue (hother c heq ▸ hc)).snoc

theorem Linear.invoke (hl : Linear actions slot h) {op : Operation Obj} (hidle : h.place call = .idle)
    (hplace : h'.place = Function.update h.place call op.start) (hslot : h'.slot = h.slot) :
    Linear (actions ++ [.invoke call op]) slot h' := by
  have hhistory : history (actions ++ [.invoke call op]) =
      history actions ++ [.invoke call op] := by simp [history_snoc, Action.event?]
  have heffects : effects (actions ++ [.invoke call op]) = effects actions := by
    simp [effects_snoc, Action.effect?]
  have hself : h'.place call = op.start := by simp [hplace]
  have hother : ∀ c, c ≠ call → h'.place c = h.place c := by
    intro c hc
    simp [hplace, hc]
  constructor
  case linear =>
    rw [hhistory, heffects, hslot]
    exact (hl.linear.mono fun _ _ _ => register_snoc).invoke op
      fun op' => hl.fresh call op' hidle
  case fresh =>
    intro c op' hc
    by_cases heq : c = call
    · rw [heq, hself] at hc
      cases op <;> cases hc
    · rw [hother c heq] at hc
      simpa [hhistory, heq] using hl.fresh c op' hc
  case invoked =>
    intro c op' hc
    rw [hhistory]
    by_cases heq : c = call
    · rw [heq, hself] at hc
      have hop : op.start.operation = some op := by cases op <;> rfl
      rw [hop] at hc
      simp [heq, Option.some.inj hc]
    · exact List.mem_append_left _ (hl.invoked c op' (hother c heq ▸ hc))
  case pending =>
    intro c hc
    rw [heffects]
    by_cases heq : c = call
    · exact heq ▸ hl.pending call (by rw [hidle]; rfl)
    · exact hl.pending c (hother c heq ▸ hc)
  case effective =>
    intro c e hc
    rw [heffects]
    by_cases heq : c = call
    · rw [heq, hself] at hc
      cases op <;> cases hc
    · exact hl.effective c e (hother c heq ▸ hc)
  case writes =>
    intro c op' newValue hc
    by_cases heq : c = call
    · rw [heq, hself] at hc
      cases op <;> cases hc
    · exact (hl.writes c op' newValue (hother c heq ▸ hc)).snoc

theorem Linear.respond (hl : Linear actions slot h) {value : Option (Option Obj)} {p : Place Obj}
    (hp : h.place call = p) (hplace : h'.place = Function.update h.place call .returned)
    (hslot : h'.slot = h.slot) {e : Effect Id (Operation Obj) (Option (Option Obj))}
    (he : p.effect call = some e) (hid : e.id = call) (hret : e.ret = value) :
    Linear (actions ++ [.respond call value]) slot h' := by
  have hhistory : history (actions ++ [.respond call value]) =
      history actions ++ [.respond call value] := by simp [history_snoc, Action.event?]
  have heffects : effects (actions ++ [.respond call value]) = effects actions := by
    simp [effects_snoc, Action.effect?]
  have hself : h'.place call = .returned := by simp [hplace]
  have hother : ∀ c, c ≠ call → h'.place c = h.place c := by
    intro c hc
    simp [hplace, hc]
  constructor
  case linear =>
    rw [hhistory, heffects, hslot, ← hid, ← hret]
    exact (hl.linear.mono fun _ _ _ => register_snoc).respond (hl.effective call e (hp ▸ he))
  case fresh =>
    intro c op hc
    by_cases heq : c = call
    · rw [heq, hself] at hc
      cases hc
    · rw [hother c heq] at hc
      simpa [hhistory] using hl.fresh c op hc
  case invoked =>
    intro c op hc
    rw [hhistory]
    by_cases heq : c = call
    · rw [heq, hself] at hc
      cases hc
    · exact List.mem_append_left _ (hl.invoked c op (hother c heq ▸ hc))
  case pending =>
    intro c hc
    rw [heffects]
    by_cases heq : c = call
    · rw [heq, hself] at hc
      cases hc
    · exact hl.pending c (hother c heq ▸ hc)
  case effective =>
    intro c e' hc
    rw [heffects]
    by_cases heq : c = call
    · rw [heq, hself] at hc
      cases hc
    · exact hl.effective c e' (hother c heq ▸ hc)
  case writes =>
    intro c op newValue hc
    by_cases heq : c = call
    · rw [heq, hself] at hc
      cases hc
    · exact (hl.writes c op newValue (hother c heq ▸ hc)).snoc

omit [DecidableEq Id] in
/-- The rest of the program goes on. -/
theorem Linear.elsewhere (hl : Linear actions slot h) (hevent : a.event? = none)
    (heffect : a.effect? = none) (hplace : h'.place = h.place) (hslot : h'.slot = h.slot) :
    Linear (actions ++ [a]) slot h' := by
  refine hl.silent hevent heffect hslot ?_ ?_ ?_ ?_ ?_ <;> simp only [hplace]
  · exact fun c hc => hc
  · exact fun c => trivial
  · exact fun c => trivial
  · exact fun c => trivial
  · exact fun c op newValue hc => (hl.writes c op newValue hc).snoc

theorem Linear.step [DecidableEq Obj] (hl : Linear actions slot h) (hstep : Step h a h') :
    Linear (actions ++ [a]) slot h' := by
  cases hstep with
  | alloc _ => exact hl.elsewhere rfl rfl rfl rfl
  | retainElsewhere _ => exact hl.elsewhere rfl rfl rfl rfl
  | releaseElsewhere _ => exact hl.elsewhere rfl rfl rfl rfl
  | lockElsewhere _ => exact hl.elsewhere rfl rfl rfl rfl
  | unlockElsewhere _ => exact hl.elsewhere rfl rfl rfl rfl
  | invoke hidle _ => exact hl.invoke hidle rfl rfl
  | getLock hp _ => exact hl.goes hp rfl rfl rfl rfl (by simp) rfl rfl rfl (by simp [Place.newValue])
  | getRead hp =>
    exact hl.takesEffect hp rfl rfl rfl rfl rfl rfl (by simp) rfl rfl rfl rfl ⟨rfl, rfl⟩
  | getRetain hp => exact hl.goes hp rfl rfl rfl rfl (by simp) rfl rfl rfl (by simp [Place.newValue])
  | getUnlock hp => exact hl.goes hp rfl rfl rfl rfl (by simp) rfl rfl rfl (by simp [Place.newValue])
  | getReturn hp => exact hl.respond hp rfl rfl rfl rfl rfl
  | setSame hp hsame =>
    -- the slot has the value already, as if it were written now
    exact hl.takesEffect hp rfl rfl rfl rfl rfl rfl (by simp) rfl rfl rfl rfl ⟨rfl, hsame⟩
  | setOther hp _ => exact hl.goes hp rfl rfl rfl rfl (by simp) rfl rfl rfl (by simp [Place.newValue])
  | @setRetain _ newValue hp =>
    refine hl.goes hp rfl rfl rfl rfl (by simp) rfl rfl rfl ?_
    rintro _ _ ⟨rfl, rfl⟩
    exact .inr (.inl rfl)
  | @setCopy _ newValue copied hp _ =>
    refine hl.goes hp rfl rfl rfl rfl (by simp) rfl rfl rfl ?_
    rintro _ _ ⟨rfl, rfl⟩
    exact .inr (.inr ⟨newValue, rfl, by simp⟩)
  | setLock hp _ => exact hl.goes hp rfl rfl rfl rfl (by simp) rfl rfl rfl fun _ _ h => .inl h
  | setRead hp => exact hl.goes hp rfl rfl rfl rfl (by simp) rfl rfl rfl fun _ _ h => .inl h
  | @setWrite call op newValue oldValue hp =>
    refine hl.takesEffect hp rfl rfl rfl rfl rfl rfl (by simp) rfl rfl rfl rfl ?_
    rcases hl.writes call op newValue (by rw [hp]; rfl) with rfl | ⟨given, rfl, hcopied⟩
    · exact ⟨rfl, rfl⟩
    · exact ⟨rfl, hcopied⟩
  | setUnlock hp => exact hl.goes hp rfl rfl rfl rfl (by simp) rfl rfl rfl (by simp [Place.newValue])
  | setRelease hp => exact hl.goes hp rfl rfl rfl rfl (by simp) rfl rfl rfl (by simp [Place.newValue])
  | setReturn hp => exact hl.respond hp rfl rfl rfl rfl rfl

end steps

/-! ## What is displaced and what is released -/

def Action.displaces? [DecidableEq Id] (call : Id) : Action Obj Id → Option (Option Obj)
  | .write c _ _ oldValue => if c = call then some oldValue else none
  | _ => none

def Action.releases? [DecidableEq Id] (call : Id) : Action Obj Id → Option (Option Obj)
  | .release c oldValue => if c = call then some oldValue else none
  | _ => none

/-- The values that a call has taken out of the slot, and those that it has released. -/
def displaced [DecidableEq Id] (actions : List (Action Obj Id)) (call : Id) : List (Option Obj) :=
  actions.filterMap (Action.displaces? call)

def released [DecidableEq Id] (actions : List (Action Obj Id)) (call : Id) : List (Option Obj) :=
  actions.filterMap (Action.releases? call)

/-- Before its write a call has displaced nothing; from there to its release it has the value;
then it has released just that. -/
def Accounted (place : Place Obj) (displaced released : List (Option Obj)) : Prop :=
  match place with
  | .setUnlock _ oldValue | .setRelease _ oldValue => displaced = [oldValue] ∧ released = []
  | .setReturn _ | .returned => displaced.length ≤ 1 ∧ released = displaced
  | _ => displaced = [] ∧ released = []

section displacing
variable [DecidableEq Id] {actions : List (Action Obj Id)} {h h' : State Obj Id}
  {a : Action Obj Id} {call : Id}

theorem displaced_snoc : displaced (actions ++ [a]) call =
    displaced actions call ++ (a.displaces? call).toList := by
  cases h : a.displaces? call <;> simp [displaced, List.filterMap_append, h]

theorem released_snoc : released (actions ++ [a]) call =
    released actions call ++ (a.releases? call).toList := by
  cases h : a.releases? call <;> simp [released, List.filterMap_append, h]

/-- The accounts of all calls. -/
def AllAccounted (actions : List (Action Obj Id)) (h : State Obj Id) : Prop :=
  ∀ call, Accounted (h.place call) (displaced actions call) (released actions call)

/-- Only the call that goes on adds to its accounts. -/
theorem AllAccounted.goes (hall : AllAccounted actions h) {p q : Place Obj} (hp : h.place call = p)
    (hplace : h'.place = Function.update h.place call q)
    (hother : ∀ c, call ≠ c → a.displaces? c = none ∧ a.releases? c = none)
    (hself : ∀ displaced released, Accounted p displaced released →
      Accounted q (displaced ++ (a.displaces? call).toList)
        (released ++ (a.releases? call).toList)) : AllAccounted (actions ++ [a]) h' := by
  intro c
  rw [displaced_snoc, released_snoc]
  by_cases heq : call = c
  · obtain rfl := heq
    rw [hplace, Function.update_self]
    exact hself _ _ (hp ▸ hall call)
  · obtain ⟨hd, hr⟩ := hother c heq
    rw [hplace, Function.update_of_ne (Ne.symm heq), hd, hr]
    simpa using hall c

/-- A step with nothing displaced or released. -/
theorem AllAccounted.silent (hall : AllAccounted actions h) (hd : ∀ c, a.displaces? c = none)
    (hr : ∀ c, a.releases? c = none)
    (hplace : ∀ c displaced released, Accounted (h.place c) displaced released →
      Accounted (h'.place c) displaced released) : AllAccounted (actions ++ [a]) h' := by
  intro c
  rw [displaced_snoc, released_snoc, hd, hr]
  simpa using hplace c _ _ (hall c)

/-- A call goes on with nothing displaced or released. -/
theorem AllAccounted.goes_silent (hall : AllAccounted actions h) {p q : Place Obj}
    (hp : h.place call = p) (hplace : h'.place = Function.update h.place call q)
    (hd : ∀ c, a.displaces? c = none) (hr : ∀ c, a.releases? c = none)
    (hself : ∀ displaced released, Accounted p displaced released →
      Accounted q displaced released) : AllAccounted (actions ++ [a]) h' := by
  refine hall.goes hp hplace (fun c _ => ⟨hd c, hr c⟩) fun displaced released hacc => ?_
  rw [hd, hr]
  simpa using hself displaced released hacc

theorem AllAccounted.step [DecidableEq Obj] (hall : AllAccounted actions h) (hstep : Step h a h') :
    AllAccounted (actions ++ [a]) h' := by
  cases hstep with
  | alloc _ => exact hall.silent (fun _ => rfl) (fun _ => rfl) fun _ _ _ hacc => hacc
  | retainElsewhere _ => exact hall.silent (fun _ => rfl) (fun _ => rfl) fun _ _ _ hacc => hacc
  | releaseElsewhere _ => exact hall.silent (fun _ => rfl) (fun _ => rfl) fun _ _ _ hacc => hacc
  | lockElsewhere _ => exact hall.silent (fun _ => rfl) (fun _ => rfl) fun _ _ _ hacc => hacc
  | unlockElsewhere _ => exact hall.silent (fun _ => rfl) (fun _ => rfl) fun _ _ _ hacc => hacc
  | @invoke _ op hidle _ =>
    refine hall.goes_silent hidle rfl (fun _ => rfl) (fun _ => rfl) fun _ _ hacc => ?_
    cases op <;> exact hacc
  | getLock hp _ => exact hall.goes_silent hp rfl (fun _ => rfl) (fun _ => rfl) fun _ _ hacc => hacc
  | getRead hp => exact hall.goes_silent hp rfl (fun _ => rfl) (fun _ => rfl) fun _ _ hacc => hacc
  | getRetain hp => exact hall.goes_silent hp rfl (fun _ => rfl) (fun _ => rfl) fun _ _ hacc => hacc
  | getUnlock hp => exact hall.goes_silent hp rfl (fun _ => rfl) (fun _ => rfl) fun _ _ hacc => hacc
  | getReturn hp =>
    refine hall.goes_silent hp rfl (fun _ => rfl) (fun _ => rfl) ?_
    rintro _ _ ⟨rfl, rfl⟩
    exact ⟨Nat.zero_le 1, rfl⟩
  | setSame hp _ =>
    refine hall.goes_silent hp rfl (fun _ => rfl) (fun _ => rfl) ?_
    rintro _ _ ⟨rfl, rfl⟩
    exact ⟨Nat.zero_le 1, rfl⟩
  | setOther hp _ => exact hall.goes_silent hp rfl (fun _ => rfl) (fun _ => rfl) fun _ _ hacc => hacc
  | setRetain hp => exact hall.goes_silent hp rfl (fun _ => rfl) (fun _ => rfl) fun _ _ hacc => hacc
  | setCopy hp _ => exact hall.goes_silent hp rfl (fun _ => rfl) (fun _ => rfl) fun _ _ hacc => hacc
  | setLock hp _ => exact hall.goes_silent hp rfl (fun _ => rfl) (fun _ => rfl) fun _ _ hacc => hacc
  | setRead hp => exact hall.goes_silent hp rfl (fun _ => rfl) (fun _ => rfl) fun _ _ hacc => hacc
  | setWrite hp =>
    refine hall.goes hp rfl (fun c hne => ⟨if_neg hne, rfl⟩) ?_
    rintro _ _ ⟨rfl, rfl⟩
    simp [Accounted, Action.displaces?, Action.releases?]
  | setUnlock hp => exact hall.goes_silent hp rfl (fun _ => rfl) (fun _ => rfl) fun _ _ hacc => hacc
  | setRelease hp =>
    refine hall.goes hp rfl (fun c hne => ⟨rfl, if_neg hne⟩) ?_
    rintro _ _ ⟨rfl, rfl⟩
    simp [Accounted, Action.displaces?, Action.releases?]
  | setReturn hp => exact hall.goes_silent hp rfl (fun _ => rfl) (fun _ => rfl) fun _ _ hacc => hacc

end displacing

/-! ## The objects that calls use -/

/-- The object that an action reads, retains, stores, releases or returns. -/
def Action.uses : Action Obj Id → Option Obj
  | .read _ value | .retain _ value | .respond _ (some value) => value
  | .write _ _ newValue _ => newValue
  | .release _ oldValue => oldValue
  | .retainElsewhere object | .releaseElsewhere object => some object
  | _ => none

/-- What a getter is about to return, and what getters have returned, they have retained. -/
structure Retained (actions : List (Action Obj Id)) (h : State Obj Id) : Prop where
  kept : ∀ call value, h.place call = .getUnlock value ∨ h.place call = .getReturn value →
    .retain call value ∈ actions
  returned : ∀ call value, .respond call (some value) ∈ actions → .retain call value ∈ actions

section objects
variable [DecidableEq Obj] [DecidableEq Id] {actions : List (Action Obj Id)} {h h' : State Obj Id}
  {a : Action Obj Id} {call : Id}

omit [DecidableEq Id] in
theorem Conserved.slot_lives (hi : Conserved h) {object : Obj} (hslot : h.slot = some object) :
    0 < h.retainCount object := by
  have hcounts := hi.counts object
  have hone : reference h.slot object = 1 := if_pos hslot
  omega

/-- A call's references are to objects that live. -/
theorem Conserved.lives (hi : Conserved h) {p : Place Obj} (hp : h.place call = p) {object : Obj}
    (hpos : 0 < p.references object) : 0 < h.retainCount object := by
  have := hi.references_le call object
  rw [hp] at this
  omega

theorem reference_self (object : Obj) : reference (some object) object = 1 := if_pos rfl

theorem Conserved.uses_live (hi : Conserved h) (hstep : Step h a h') {object : Obj}
    (huses : a.uses = some object) : 0 < h.retainCount object := by
  cases hstep with
  | @retainElsewhere used hpos =>
    obtain rfl : used = object := Option.some.inj huses
    have := hi.counts used
    omega
  | @releaseElsewhere used hpos =>
    obtain rfl : used = object := Option.some.inj huses
    have := hi.counts used
    omega
  | getRead hp => exact hi.slot_lives huses
  | @getRetain call value hp => exact hi.slot_lives ((hi.seen call value (by rw [hp]; rfl)).trans huses)
  | @getReturn _ value hp =>
    obtain rfl : value = some object := huses
    exact hi.lives hp (by simp [Place.references, reference_self])
  | @setRetain _ newValue hp =>
    obtain rfl : newValue = some object := huses
    exact hi.lives hp (by simp [Place.references, reference_self])
  | @setWrite _ op newValue oldValue hp =>
    obtain rfl : newValue = some object := huses
    exact hi.lives hp (by simp [Place.references, reference_self])
  | @setRelease _ op oldValue hp =>
    obtain rfl : oldValue = some object := huses
    exact hi.lives hp (by simp [Place.references, reference_self])
  | _ => cases huses

omit [DecidableEq Obj] [DecidableEq Id] in
theorem Retained.elsewhere (hr : Retained actions h) (hplace : h'.place = h.place)
    (hret : ∀ call value, a ≠ .respond call (some value)) : Retained (actions ++ [a]) h' where
  kept := by
    intro c value hc
    rw [hplace] at hc
    exact List.mem_append_left _ (hr.kept c value hc)
  returned := by
    intro c value hmem
    rcases List.mem_append.mp hmem with hold | hnew
    · exact List.mem_append_left _ (hr.returned c value hold)
    · exact absurd (List.mem_singleton.mp hnew).symm (hret c value)

omit [DecidableEq Obj] in
theorem Retained.goes (hr : Retained actions h) {q : Place Obj}
    (hplace : h'.place = Function.update h.place call q)
    (hkept : ∀ value, q = .getUnlock value ∨ q = .getReturn value →
      .retain call value ∈ actions ++ [a])
    (hret : ∀ c value, a = .respond c (some value) → .retain c value ∈ actions) :
    Retained (actions ++ [a]) h' where
  kept := by
    intro c value hc
    by_cases heq : c = call
    · rw [heq, hplace, Function.update_self] at hc
      exact heq ▸ hkept value hc
    · rw [hplace, Function.update_of_ne heq] at hc
      exact List.mem_append_left _ (hr.kept c value hc)
  returned := by
    intro c value hmem
    rcases List.mem_append.mp hmem with hold | hnew
    · exact List.mem_append_left _ (hr.returned c value hold)
    · exact List.mem_append_left _ (hret c value (List.mem_singleton.mp hnew).symm)

theorem Retained.step (hr : Retained actions h) (hstep : Step h a h') :
    Retained (actions ++ [a]) h' := by
  cases hstep with
  | alloc _ => exact hr.elsewhere rfl (by simp)
  | retainElsewhere _ => exact hr.elsewhere rfl (by simp)
  | releaseElsewhere _ => exact hr.elsewhere rfl (by simp)
  | lockElsewhere _ => exact hr.elsewhere rfl (by simp)
  | unlockElsewhere _ => exact hr.elsewhere rfl (by simp)
  | @invoke _ op _ _ =>
    refine hr.goes rfl ?_ (by simp)
    cases op <;> simp [Operation.start]
  | @getRetain _ value hp =>
    refine hr.goes rfl ?_ (by simp)
    rintro value' (heq | heq)
    · injection heq with hvalue
      simp [hvalue]
    · cases heq
  | @getUnlock call value hp =>
    refine hr.goes rfl ?_ (by simp)
    rintro value' (heq | heq)
    · cases heq
    · injection heq with hvalue
      exact List.mem_append_left _ (hvalue ▸ hr.kept call value (.inl hp))
  | @getReturn call value hp =>
    refine hr.goes rfl (by simp) ?_
    rintro _ _ ⟨rfl, rfl⟩
    exact hr.kept call value (.inr hp)
  | _ => exact hr.goes rfl (by simp) (by simp)

end objects

/-! ## Any calls in any interleaving -/

section runs
variable [DecidableEq Obj] [DecidableEq Id] {actions : List (Action Obj Id)} {slot : Option Obj}
  {others : Obj → Nat} {h : State Obj Id}

theorem invariants_of_run (hrun : Run Step (start slot others) actions h) :
    Conserved h ∧ Linear actions slot h ∧ AllAccounted actions h ∧ Retained actions h := by
  induction hrun with
  | nil =>
    refine ⟨conserved_start slot others, linear_start slot others, fun call => ⟨rfl, rfl⟩, ?_⟩
    exact ⟨by simp [start], by simp⟩
  | snoc _ hstep ih =>
    obtain ⟨hi, hl, hall, hr⟩ := ih
    exact ⟨hi.step hstep, hl.step hstep, hall.step hstep, hr.step hstep⟩

omit [DecidableEq Obj] [DecidableEq Id] in
theorem Accounted.balance {place : Place Obj} {displaced released : List (Option Obj)}
    (h : Accounted place displaced released) :
    displaced.length ≤ 1 ∧ (released = [] ∨ released = displaced) ∧
      (place = .returned → released = displaced) := by
  cases place with
  | setUnlock op oldValue =>
    obtain ⟨rfl, rfl⟩ := h
    exact ⟨Nat.le_refl 1, .inl rfl, fun heq => by cases heq⟩
  | setRelease op oldValue =>
    obtain ⟨rfl, rfl⟩ := h
    exact ⟨Nat.le_refl 1, .inl rfl, fun heq => by cases heq⟩
  | setReturn op => exact ⟨h.1, .inr h.2, fun _ => h.2⟩
  | returned => exact ⟨h.1, .inr h.2, fun _ => h.2⟩
  | _ =>
    obtain ⟨rfl, rfl⟩ := h
    exact ⟨Nat.zero_le 1, .inl rfl, fun _ => rfl⟩

/-- The calls are linearizable as reads and writes of one register. Each reference is that of the
slot, of a call, or of the rest of the program. A call displaces at most one value, what the slot
held, and has released just that when it returns. Getters retain what they return, and no
object that is read, retained, stored, released or returned is deallocated. -/
theorem atomic_properties_are_linearizable (hrun : Run Step (start slot others) actions h) :
    (∃ effects, Linearizes (register (Copied actions)) slot (history actions) effects h.slot) ∧
      (∀ object, h.retainCount object = h.others object + reference h.slot object +
        ∑ call ∈ h.calls, (h.place call).references object) ∧
      (∀ call, (displaced actions call).length ≤ 1 ∧
        (released actions call = [] ∨ released actions call = displaced actions call) ∧
        (h.place call = .returned → released actions call = displaced actions call)) ∧
      (∀ call value, .respond call (some value) ∈ actions → .retain call value ∈ actions) ∧
      (∀ call op newValue oldValue h', Step h (.write call op newValue oldValue) h' →
        h.slot = oldValue) ∧
      (∀ a h' object, Step h a h' → a.uses = some object → 0 < h.retainCount object) := by
  obtain ⟨hi, hl, hall, hr⟩ := invariants_of_run hrun
  refine ⟨⟨_, hl.linear⟩, hi.counts, fun call => (hall call).balance, hr.returned, ?_, ?_⟩
  · intro call op newValue oldValue h' hstep
    cases hstep with
    | setWrite hp => exact hi.seen call oldValue (by rw [hp]; rfl)
  · exact fun a h' object hstep huses => hi.uses_live hstep huses

end runs

/-- A getter reads the old value while a setter waits for the lock, and returns it when the
setter has released it. -/
theorem atomic_properties_are_linearizable_of_two :
    ∃ h : State Nat Nat, h.slot = some 2 ∧ h.others 1 = 1 ∧ h.retainCount 1 = 1 ∧
      ∃ actions, .respond 1 (some (some 1)) ∈ actions ∧ .release 0 (some 1) ∈ actions ∧
        ∃ effects, Linearizes (register (Copied actions)) (some 1) (history actions) effects h.slot := by
  have hrun : ∃ h : State Nat Nat, Run Step (start (some 1) fun object => if object = 2 then 1 else 0)
      [.invoke 1 .objc_getProperty, .invoke 0 (.objc_setProperty_atomic (some 2)), .otherValue 0,
        .retain 0 (some 2), .lock 1, .read 1 (some 1), .retain 1 (some 1), .unlock 1, .lock 0,
        .readOld 0 (some 1), .write 0 (.objc_setProperty_atomic (some 2)) (some 2) (some 1),
        .unlock 0, .release 0 (some 1), .respond 1 (some (some 1))] h ∧
      h.slot = some 2 ∧ h.others 1 = 1 ∧ h.retainCount 1 = 1 := by
    refine ⟨_, (((((((((((((Run.nil.snoc (.invoke rfl ?_)).snoc (.invoke rfl ?_)).snoc
      (.setOther rfl ?_)).snoc (.setRetain rfl)).snoc (.getLock rfl rfl)).snoc (.getRead rfl)).snoc
      (.getRetain rfl)).snoc (.getUnlock rfl)).snoc (.setLock rfl rfl)).snoc (.setRead rfl)).snoc
      (.setWrite rfl)).snoc (.setUnlock rfl)).snoc (.setRelease rfl)).snoc (.getReturn rfl),
      rfl, rfl, rfl⟩
    · exact holds_iff.mpr fun object => Nat.zero_le _
    · rintro _ ⟨rfl⟩
      exact Nat.one_pos
    · exact fun heq => by cases heq
  obtain ⟨h, hrun, hslot, hothers, hcount⟩ := hrun
  exact ⟨h, hslot, hothers, hcount, _, by simp, by simp, (atomic_properties_are_linearizable hrun).1⟩

end objc_runtime.atomic_properties
