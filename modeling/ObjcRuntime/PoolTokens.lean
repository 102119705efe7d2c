-- The tokens of autorelease pools, and the end of a thread (NSObject.mm). A token stands for a place,
-- and it does until its pool is popped, whatever is pushed and popped above it. The pop of a token,
-- like the end of the thread, releases what the pool got.
import ObjcRuntime.PoolReleases

open objc_runtime.runs

namespace objc_runtime.autorelease_pool

variable {cfg : Config}

/-! ## Tokens -/

variable (cfg) in
/-- What `autoreleaseFast` returns for a boundary: the place of it. -/
def push (s : State) : Token :=
  match s.hotPage with
  | some i =>
    if !(s.page i).full cfg then .place i (s.page i).length
    else
      let j := i + 1 + (s.pages.drop (i + 1)).findIdx fun page => !page.full cfg
      .place j (s.page j).length
  | none => if s.tls = .EMPTY_POOL_PLACEHOLDER then .place 0 1 else .EMPTY_POOL_PLACEHOLDER

section tokens

variable {s s₀ s₁ t : State} {token : Token} {target : Nat × Nat} {page i : Nat}

/-- The first page that is not full is the next, and it is empty. -/
theorem push_of_full {hot : Nat} (h : Layered cfg s hot) (hhot : s.hotPage = some hot)
    (hfull : (s.page hot).full cfg = true) : push cfg s = .place (hot + 1) 0 := by
  have hnext : s.page (hot + 1) = [] := h.hotter (hot + 1) (Nat.lt_succ_self hot)
  have hfind : (s.pages.drop (hot + 1)).findIdx (fun page => !page.full cfg) = 0 := by
    cases hdrop : s.pages.drop (hot + 1) with
    | nil => rfl
    | cons page pages =>
      have hpage : (s.pages.drop (hot + 1))[0]? = some page := by
        rw [hdrop]
        rfl
      rw [List.getElem?_drop, Nat.add_zero] at hpage
      have hempty : page = [] := by
        rw [State.page, List.getD_eq_getElem?_getD, hpage] at hnext
        exact hnext
      have hroom : (0 == cfg.capacity) = false := by
        have htwo := cfg.two_le
        simp only [beq_eq_false_iff_ne]
        omega
      simp [List.findIdx_cons, hempty, Page.full, hroom]
  simp [push, hhot, hfull, hfind, hnext]

/-- The place of a boundary in a page is where a pop stops. -/
theorem popTarget_of_boundary (g : Good cfg s) (hhot : s.hotPage.isSome) (hi : i < cfg.capacity)
    (hboundary : s.entries[page * cfg.capacity + i]? = some .POOL_BOUNDARY) :
    popTarget s (.place page i) = some (page, i) ∧ page < s.pages.length := by
  obtain ⟨hot, hhot⟩ := Option.isSome_iff_exists.mp hhot
  rw [g.getElem hhot hi] at hboundary
  refine ⟨if_pos (.inl hboundary), ?_⟩
  by_contra hge
  rw [page_of_le (Nat.le_of_not_lt hge)] at hboundary
  cases hboundary

/-- The token of a pool that is still open. -/
theorem popTarget_push (g : Good cfg s) (h : Good cfg s₁)
    (hkept : s.entries ++ [.POOL_BOUNDARY] <+: s₁.entries)
    (hhot : push cfg s ≠ .EMPTY_POOL_PLACEHOLDER → s₁.hotPage.isSome) :
    ∃ target, popTarget s₁ (push cfg s) = some target ∧
      target.1 * cfg.capacity + target.2 = s.entries.length ∧
      ∀ page i, push cfg s = .place page i → page < s₁.pages.length := by
  have htwo := cfg.two_le
  have hplace : ∀ page i, push cfg s = .place page i → i < cfg.capacity →
      page * cfg.capacity + i = s.entries.length → ∃ target,
        popTarget s₁ (push cfg s) = some target ∧
        target.1 * cfg.capacity + target.2 = s.entries.length ∧
        ∀ page i, push cfg s = .place page i → page < s₁.pages.length := by
    intro page i hpush hi hindex
    have hboundary : s₁.entries[page * cfg.capacity + i]? = some .POOL_BOUNDARY := by
      obtain ⟨rest, hrest⟩ := hkept
      rw [← hrest, hindex, List.append_assoc, List.getElem?_append_right (Nat.le_refl _),
        Nat.sub_self]
      rfl
    obtain ⟨htarget, hlt⟩ := popTarget_of_boundary h (hhot (by simp [hpush])) hi hboundary
    rw [hpush]
    refine ⟨(page, i), htarget, hindex, fun page' i' heq => ?_⟩
    obtain ⟨rfl, -⟩ := Token.place.inj heq
    exact hlt
  cases hs : s.hotPage with
  | some hot =>
    have hlayers := g.layered hot hs
    have hlength := (g.entries hs).2
    have hle := hlayers.hot
    cases hfull : (s.page hot).full cfg with
    | false =>
      have hroom : (s.page hot).length ≠ cfg.capacity := by simpa [Page.full] using hfull
      have hpush : push cfg s = .place hot (s.page hot).length := by simp [push, hs, hfull]
      exact hplace _ _ hpush (by omega) hlength.symm
    | true =>
      have hroom : (s.page hot).length = cfg.capacity := by simpa [Page.full] using hfull
      refine hplace _ _ (push_of_full hlayers hs hfull) (by omega) ?_
      rw [hlength, hroom, Nat.succ_mul, Nat.add_zero]
  | none =>
    obtain ⟨hpages, -⟩ := g.noPage hs
    by_cases htls : s.tls = .EMPTY_POOL_PLACEHOLDER
    · have hpush : push cfg s = .place 0 1 := by simp [push, hs, htls]
      exact hplace _ _ hpush (by omega) (by simp [State.entries, htls])
    · have hpush : push cfg s = .EMPTY_POOL_PLACEHOLDER := by simp [push, hs, htls]
      rw [hpush]
      exact ⟨(0, 0), rfl, by simp [State.entries, htls, hpages], fun page i heq => by cases heq⟩

/-- A pop of a token that stands for a place goes ahead. -/
theorem pop_isSome (hruns : s.programRuns = true) (htarget : popTarget s token = some target)
    (hpage : ∀ page i, token = .place page i → page < s.pages.length) :
    (step cfg s (.pop token)).isSome := by
  rw [step, if_pos hruns]
  cases token with
  | EMPTY_POOL_PLACEHOLDER =>
    cases hhot : s.hotPage <;> simp [pop, hhot]
  | place page i =>
    have hlt := hpage page i rfl
    simp [pop, Nat.not_le.mpr hlt, htarget]

/-- After a push there is a page, unless the push set the placeholder. -/
theorem hotPage_of_push (h : step cfg s .push = some s₀)
    (hne : push cfg s ≠ .EMPTY_POOL_PLACEHOLDER) : s₀.hotPage.isSome := by
  by_cases hhot : s.hotPage.isSome
  · exact step_hotPage h hhot
  · rw [Option.not_isSome_iff_eq_none] at hhot
    have htls : s.tls = .EMPTY_POOL_PLACEHOLDER := by
      by_contra hnot
      exact hne (by simp [push, hhot, hnot])
    simp only [step] at h
    split at h
    · rw [← Option.some.inj h]
      simp [autoreleaseFast, autoreleaseNoPage, htls, State.hotPage]
    · cases h

/-- A token stands for the same place while the entries below the top stay. -/
theorem popTarget_kept (g : Good cfg s) (h : Good cfg t) (hentries : t.entries = s.entries)
    (hhot : s.hotPage.isSome → t.hotPage.isSome) (htarget : popTarget s token = some target) :
    popTarget t token = some target := by
  cases token with
  | EMPTY_POOL_PLACEHOLDER => exact htarget
  | place page i =>
    simp only [popTarget] at htarget ⊢
    split at htarget
    · rename_i hplace
      rw [if_pos, htarget]
      rcases hplace with hboundary | hzero
      · left
        cases hs : s.hotPage with
        | none =>
          rw [State.page, (g.noPage hs).1] at hboundary
          cases hboundary
        | some hot =>
          obtain ⟨hot', ht⟩ := Option.isSome_iff_exists.mp (hhot (by simp [hs]))
          have hi : i < cfg.capacity :=
            Nat.lt_of_lt_of_le (List.getElem?_eq_some_iff.mp hboundary).1 (g.length_le hs page)
          rw [← h.getElem ht hi, hentries, g.getElem hs hi, hboundary]
      · exact .inr hzero
    · cases htarget

end tokens

/-! ## The end of a thread -/

/-- Up to the call of `pop`, if there is one. The pages are freed after it. -/
def tls_dealloc (s : State) : Option State :=
  match s.hotPage with
  | none => some s
  | some _ => if (s.page 0).isEmpty then some s else pop s (.place 0 0)

section ending

variable {s s₁ s₂ : State} {as : List Action}

theorem Good.entries_of_empty (g : Good cfg s) (hempty : s.page 0 = []) :
    ∀ e ∈ s.entries, e = .POOL_BOUNDARY := by
  cases hs : s.hotPage with
  | none =>
    intro e he
    unfold State.entries at he
    split at he
    · exact List.mem_singleton.mp he
    · rw [(g.noPage hs).1] at he
      cases he
  | some hot =>
    have hlayers := g.layered hot hs
    obtain rfl : hot = 0 := by
      by_contra hne
      have hfull := hlayers.colder 0 (Nat.pos_of_ne_zero hne)
      have htwo := cfg.two_le
      rw [hempty, List.length_nil] at hfull
      omega
    have hnone : s.entries = [] := by
      rw [(g.entries hs).1, hempty]
      rfl
    rw [hnone]
    exact fun e he => absurd he List.not_mem_nil

theorem times_eq_zero {obj : id} {es : List Entry} (h : ∀ e ∈ es, e = .POOL_BOUNDARY) :
    times obj es = 0 := by
  induction es with
  | nil => rfl
  | cons e es ih =>
    rw [times_cons, h e List.mem_cons_self, ih fun e he => h e (List.mem_cons_of_mem _ he)]
    rfl

/-- A run inside of pops that does not begin in one. -/
theorem eq_of_outside {stp : State → Action → State → Prop} (hframes : s.frames = [])
    (inside : Run (fun t a u => stp t a u ∧ 0 < t.frames.length) s as s₂) : as = [] ∧ s = s₂ := by
  cases as with
  | nil => exact ⟨rfl, inside.eq_of_nil⟩
  | cons a as =>
    obtain ⟨t, ⟨-, hdeep⟩, -⟩ := inside.exists_cons
    rw [hframes] at hdeep
    exact absurd hdeep (Nat.lt_irrefl 0)

theorem exists_dealloc (s : State) : ∃ s₁, tls_dealloc s = some s₁ := by
  unfold tls_dealloc
  split
  · exact ⟨s, rfl⟩
  · split
    · exact ⟨s, rfl⟩
    · rename_i hsome
      have hlt : ¬ s.pages.length ≤ 0 := by
        intro hle
        exact hsome (by rw [page_of_le hle]; rfl)
      exact ⟨_, by rw [pop, if_neg hlt, popTarget, if_pos (.inr ⟨rfl, rfl⟩)]⟩

theorem Kept.dealloc (hs : Kept cfg s) (hframes : s.frames = []) (hexit : tls_dealloc s = some s₁)
    (inside : Run (fun t a u => balancedStep cfg t a u ∧ 0 < t.frames.length) s₁ as s₂)
    (hend : s₂.frames = []) : (∀ e ∈ s₂.entries, e = .POOL_BOUNDARY) ∧
      ∀ obj, releases cfg obj s₁ as = times obj s.entries + autoreleases obj as := by
  have hnothing (hempty : s.page 0 = []) (hsame : s₁ = s) :
      (∀ e ∈ s₂.entries, e = .POOL_BOUNDARY) ∧
        ∀ obj, releases cfg obj s₁ as = times obj s.entries + autoreleases obj as := by
    subst hsame
    obtain ⟨rfl, rfl⟩ := eq_of_outside hframes inside
    have hentries := hs.1.entries_of_empty hempty
    exact ⟨hentries, fun obj => by rw [times_eq_zero hentries]; rfl⟩
  unfold tls_dealloc at hexit
  split at hexit
  · rename_i hhot
    refine hnothing ?_ (Option.some.inj hexit).symm
    rw [State.page, (hs.1.noPage hhot).1]
    rfl
  · split at hexit
    · rename_i hempty
      exact hnothing (List.isEmpty_iff.mp hempty) (Option.some.inj hexit).symm
    · have hruns : s.programRuns = true := by simp [State.programRuns, hframes]
      have hpop : balancedStep cfg s (.pop (.place 0 0)) s₁ := by
        refine ⟨by rw [autorelease_pool.step, if_pos hruns, hexit], fun target _ frame hframe => ?_⟩
        rw [hframes] at hframe
        cases hframe
      have hs₁ := hs.step hpop
      rcases pop_cases hpop.1 with ⟨target, htarget, rfl⟩ | ⟨hbad, -⟩ | ⟨-, hnone, -⟩
      · obtain rfl : (0, 0) = target := by
          rw [popTarget, if_pos (.inr ⟨rfl, rfl⟩)] at htarget
          exact Option.some.inj htarget
        have hzero : s.frames.length = 0 := by rw [hframes]; rfl
        have inside := inside.mono fun t a u h =>
          (⟨h.1, hzero ▸ h.2⟩ : balancedStep cfg t a u ∧ s.frames.length < t.frames.length)
        obtain ⟨-, hentries, hreleases⟩ := hs.popped hs₁ rfl rfl rfl inside (by rw [hend, hframes])
        have hindex : Frame.index cfg ⟨0, 0, none⟩ = 0 := by simp [Frame.index]
        rw [hindex] at hentries hreleases
        refine ⟨?_, hreleases⟩
        rw [hentries, List.take_zero]
        exact fun e he => absurd he List.not_mem_nil
      · rw [popTarget, if_pos (.inr ⟨rfl, rfl⟩)] at hbad
        cases hbad
      · rename_i hhot _
        rw [hnone] at hhot
        cases hhot

end ending

/-! ## What a program got is released -/

section programs

variable {s : State} {before : List Action}

end programs

/-! ## A run over three pages -/

def smallPages : Config := ⟨2, by decide, true, false, false⟩

def placeholder : State := ⟨.EMPTY_POOL_PLACEHOLDER, [], []⟩

/-- A pool that fills its page and the next, with an inner pool that is left open. -/
def bodyOverPages : List Action := [.autorelease 8, .autorelease 8, .autorelease 9, .push]

def overPages : State :=
  ⟨.page 2, [[.POOL_BOUNDARY, .POOL_BOUNDARY], [.object 8 0, .object 8 0],
    [.object 9 0, .POOL_BOUNDARY]], []⟩

/-- The -release of 9 uses a pool of its own. The loop goes back over two pages. -/
def releasesOverPages : List Action :=
  [.turn, .turn, .push, .autorelease 10, .pop (.place 2 0), .turn, .released, .turn, .turn, .released,
    .turn, .released, .turn, .released, .turn]

theorem run_bodyOverPages : Run
    (fun t a u => balancedStep smallPages t a u ∧ Stays smallPages placeholder t a)
    ⟨.page 0, [[.POOL_BOUNDARY, .POOL_BOUNDARY]], []⟩ bodyOverPages overPages := by
  have hstays (t : State) (a : Action) (ha : a ∈ bodyOverPages) : Stays smallPages placeholder t a := by
    intro _
    simp only [bodyOverPages, List.mem_cons, List.not_mem_nil, or_false] at ha
    refine ⟨?_, ?_, ?_⟩ <;> rcases ha with rfl | rfl | rfl | rfl <;> simp
  exact (((Run.nil.snoc ⟨⟨rfl, trivial⟩, hstays _ _ (by decide)⟩).snoc
    ⟨⟨rfl, trivial⟩, hstays _ _ (by decide)⟩).snoc ⟨⟨rfl, trivial⟩, hstays _ _ (by decide)⟩).snoc
    ⟨⟨rfl, trivial⟩, hstays _ _ (by decide)⟩

theorem run_popOverPages : Run (fun t a u => balancedStep smallPages t a u ∧ 0 < t.frames.length)
    { overPages with frames := [⟨0, 1, none⟩] } (releasesOverPages ++ [.turn])
    ⟨.page 0, [[.POOL_BOUNDARY], []], []⟩ :=
  run_of_balanced (n := 1) (by decide +kernel)

theorem run_exitOverPages : Run (fun t a u => balancedStep smallPages t a u ∧ 0 < t.frames.length)
    { overPages with frames := [⟨0, 0, none⟩] } (releasesOverPages ++ [.turn, .turn])
    ⟨.page 0, [[]], []⟩ :=
  run_of_balanced (n := 1) (by decide +kernel)

end objc_runtime.autorelease_pool
