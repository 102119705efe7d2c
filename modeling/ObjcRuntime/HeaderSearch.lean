-- The search for a header in the table of the shared cache (objc-opt.mm). Both bounds are part of
-- what is searched, and the search starts with the count for an upper bound.
import Mathlib.Tactic.Ring
import Mathlib.Data.List.Basic

namespace objc_runtime.header_search

/-! ## The table -/

structure objc_headeropt_ro_t where
  count : BitVec 32
  entsize : BitVec 32
  /-- What `mhdr()` gives at an offset from the first header, in the table or after it. -/
  mhdr : Nat → Nat
  sorted : ∀ i j, i < j → j < count.toNat → mhdr (i * entsize.toNat) < mhdr (j * entsize.toNat)

/-- The address of the Mach-O header of an entry of the table. -/
def objc_headeropt_ro_t.header (T : objc_headeropt_ro_t) (i : Nat) : Nat :=
  T.mhdr (i * T.entsize.toNat)

def int32 (x : Int) : Int := x.bmod (2 ^ 32)

def uint32 (x : Int) : Nat := (x % 2 ^ 32).toNat

variable (T : objc_headeropt_ro_t)

/-- The address of the Mach-O header of `get(i)`, where the index and the offset are of 32 bits. -/
def objc_headeropt_ro_t.mhdrOf (i : Nat) : Nat := T.mhdr (i * T.entsize.toNat % 2 ^ 32)

/-- The loop, with the indexes that it inspects and the index of the header that it returns. `none`:
it has not ended in so many turns. -/
def search (mhdr : Nat) : Nat → Int → Int → Option (List Nat × Option Nat)
  | 0, _, _ => none
  | fuel + 1, start, «end» =>
    if start ≤ «end» then
      let i := (int32 (start + «end»)).tdiv 2
      let hi := T.mhdrOf (uint32 i)
      if mhdr = hi then some ([uint32 i], some (uint32 i))
      else
        (if mhdr < hi then search mhdr fuel start (int32 (i - 1))
          else search mhdr fuel (int32 (i + 1)) «end»).map
          fun (inspected, found) => (uint32 i :: inspected, found)
    else some ([], none)

def objc_headeropt_ro_t.get (mhdr : Nat) : Option (List Nat × Option Nat) :=
  search T mhdr (T.count.toNat + 2) 0 (int32 T.count.toNat)

/-- The sum of two indexes and the offset of an entry do not go round. -/
structure objc_headeropt_ro_t.Fits : Prop where
  count_lt : T.count.toNat < 2 ^ 30
  bytes_le : T.count.toNat * T.entsize.toNat ≤ 2 ^ 32

/-! ## The bounds stay in 32 bits -/

variable {T} {mhdr fuel start stop i : Nat}

theorem int32_eq {x : Int} (hlow : -1 ≤ x) (hhigh : x < 2 ^ 31) : int32 x = x := by
  apply Int.bmod_eq_of_le
  · norm_num
    omega
  · norm_num
    omega

theorem uint32_eq (h : i < 2 ^ 32) : uint32 (i : Int) = i := by
  unfold uint32
  omega

theorem objc_headeropt_ro_t.Fits.mhdrOf_eq (hfits : T.Fits) (h : i < T.count.toNat) :
    T.mhdrOf i = T.header i := by
  have hlt : i * T.entsize.toNat < 2 ^ 32 := by
    rcases Nat.eq_zero_or_pos T.entsize.toNat with hzero | hpos
    · rw [hzero, Nat.mul_zero]
      norm_num
    · exact (Nat.mul_lt_mul_of_pos_right h hpos).trans_le hfits.bytes_le
  rw [mhdrOf, header, Nat.mod_eq_of_lt hlt]

theorem objc_headeropt_ro_t.header_lt {j : Nat} (hij : i < j) (hj : j < T.count.toNat) :
    T.header i < T.header j := T.sorted i j hij hj

/-- A turn of the loop over the indexes from `start` to just before `stop`. -/
theorem search_of_lt (hfits : T.Fits) (hlt : start < stop) (hstop : stop ≤ T.count.toNat + 1) :
    search T mhdr (fuel + 1) start ((stop : Int) - 1) =
      if mhdr = T.mhdrOf ((start + stop - 1) / 2) then
        some ([(start + stop - 1) / 2], some ((start + stop - 1) / 2))
      else
        (if mhdr < T.mhdrOf ((start + stop - 1) / 2) then
            search T mhdr fuel start (((start + stop - 1) / 2 : Nat) - 1 : Int)
          else search T mhdr fuel ((start + stop - 1) / 2 + 1 : Nat) ((stop : Int) - 1)).map
          fun (inspected, found) => ((start + stop - 1) / 2 :: inspected, found) := by
  have hcount := hfits.count_lt
  have hsum : int32 ((start : Int) + ((stop : Int) - 1)) = ((start + stop - 1 : Nat) : Int) := by
    rw [int32_eq (by omega) (by omega)]
    omega
  have hhalf : (((start + stop - 1 : Nat) : Int)).tdiv 2 = ((start + stop - 1) / 2 : Nat) := by
    rw [Int.tdiv_eq_ediv_of_nonneg (by omega)]
    omega
  rw [search, if_pos (by omega)]
  simp only [hsum, hhalf]
  generalize hi : (start + stop - 1) / 2 = i
  have hle : i ≤ T.count.toNat := by omega
  rw [uint32_eq (by omega), int32_eq (x := (i : Int) - 1) (by omega) (by omega),
    int32_eq (x := (i : Int) + 1) (by omega) (by omega)]
  rfl

theorem search_of_ge (hge : stop ≤ start) :
    search T mhdr (fuel + 1) start ((stop : Int) - 1) = some ([], none) := by
  rw [search, if_neg (by omega)]

/-! ## What the loop does -/

/-- The loop ends, whatever the headers are. -/
theorem search_ends (hfits : T.Fits) (mhdr fuel start stop : Nat) (hstop : stop ≤ T.count.toNat + 1)
    (hfuel : stop - start < fuel) :
    ∃ inspected found, search T mhdr fuel start ((stop : Int) - 1) = some (inspected, found) := by
  induction fuel generalizing start stop with
  | zero => exact absurd hfuel (Nat.not_lt_zero _)
  | succ fuel ih =>
    rcases Nat.lt_or_ge start stop with hlt | hge
    · rw [search_of_lt hfits hlt hstop]
      split_ifs
      · exact ⟨_, _, rfl⟩
      · obtain ⟨inspected, found, hsearch⟩ := ih start ((start + stop - 1) / 2) (by omega)
          (by omega)
        rw [hsearch]
        exact ⟨_, _, rfl⟩
      · obtain ⟨inspected, found, hsearch⟩ := ih ((start + stop - 1) / 2 + 1) stop hstop (by omega)
        rw [hsearch]
        exact ⟨_, _, rfl⟩
    · exact ⟨[], none, search_of_ge hge⟩

variable (T mhdr) in
/-- What the loop should return: the header that is looked for, if the table has it, by the indexes
of the table alone. -/
def Right (inspected : List Nat) (found : Option Nat) : Prop :=
  (∀ i, i ∈ inspected → i < T.count.toNat) ∧ ∀ i, found = some i ↔ i < T.count.toNat ∧ T.header i = mhdr

theorem Right.cons {inspected : List Nat} {found : Option Nat} (h : Right T mhdr inspected found)
    (hi : i < T.count.toNat) : Right T mhdr (i :: inspected) found := by
  refine ⟨fun j hj => ?_, h.2⟩
  rcases List.mem_cons.mp hj with rfl | hj
  · exact hi
  · exact h.1 j hj

/-- What is looked for is not before `start` and not from `stop` on. -/
structure Between (T : objc_headeropt_ro_t) (mhdr start stop : Nat) : Prop where
  below : ∀ j, j < start → j < T.count.toNat → T.header j < mhdr
  above : ∀ j, stop ≤ j → j < T.count.toNat → mhdr < T.header j

theorem Between.lower (h : Between T mhdr start stop) (hlt : mhdr < T.header i) :
    Between T mhdr start i := by
  refine ⟨h.below, fun j hj hcount => ?_⟩
  rcases Nat.lt_or_eq_of_le hj with hij | rfl
  · exact hlt.trans (T.header_lt hij hcount)
  · exact hlt

theorem Between.upper (h : Between T mhdr start stop) (hi : i < T.count.toNat) (hlt : T.header i < mhdr) :
    Between T mhdr (i + 1) stop := by
  refine ⟨fun j hj hcount => ?_, h.above⟩
  rcases Nat.lt_or_eq_of_le (Nat.le_of_lt_succ hj) with hij | rfl
  · exact (T.header_lt hij hi).trans hlt
  · exact hlt

/-- With a header that is not below the one that is looked for, the middle is in the table. -/
theorem search_right (hfits : T.Fits) (h : Between T mhdr start stop) (hstop : stop ≤ T.count.toNat + 1)
    (hfuel : stop - start < fuel) (hsome : ∃ i < T.count.toNat, mhdr ≤ T.header i) :
    ∃ inspected found, search T mhdr fuel start ((stop : Int) - 1) = some (inspected, found) ∧
      Right T mhdr inspected found := by
  induction fuel generalizing start stop with
  | zero => exact absurd hfuel (Nat.not_lt_zero _)
  | succ fuel ih =>
    rcases Nat.lt_or_ge start stop with hlt | hge
    · rw [search_of_lt hfits hlt hstop]
      generalize hi : (start + stop - 1) / 2 = i
      have hcount : i < T.count.toNat := by
        obtain ⟨k, hk, hle⟩ := hsome
        have hstart : start ≤ k := by
          by_contra hbelow
          exact absurd (h.below k (by omega) hk) (Nat.not_lt.mpr hle)
        omega
      rw [hfits.mhdrOf_eq hcount]
      split_ifs with heq hless
      · refine ⟨_, _, rfl, by simpa using hcount, fun j => ?_⟩
        rw [Option.some.injEq]
        constructor
        · rintro rfl
          exact ⟨hcount, heq.symm⟩
        · rintro ⟨hj, hsame⟩
          rw [heq] at hsame
          rcases Nat.lt_trichotomy i j with hij | rfl | hij
          · exact absurd hsame.symm (Nat.ne_of_lt (T.header_lt hij hj))
          · rfl
          · exact absurd hsame (Nat.ne_of_lt (T.header_lt hij hcount))
      · obtain ⟨inspected, found, hsearch, hright⟩ :=
          ih (h.lower hless) (by omega) (by omega)
        rw [hsearch]
        exact ⟨_, _, rfl, hright.cons hcount⟩
      · obtain ⟨inspected, found, hsearch, hright⟩ :=
          ih (h.upper hcount (by omega)) hstop (by omega)
        rw [hsearch]
        exact ⟨_, _, rfl, hright.cons hcount⟩
    · refine ⟨[], none, search_of_ge hge, by simp, fun i => ?_⟩
      refine iff_of_false (by simp) ?_
      rintro ⟨hi, hsame⟩
      rcases Nat.lt_or_ge i start with hbelow | habove
      · exact absurd hsame (Nat.ne_of_lt (h.below i hbelow hi))
      · exact absurd hsame.symm (Nat.ne_of_lt (h.above i (by omega) hi))

/-- Above all headers the loop goes on to the end of the table. -/
theorem search_count (hfits : T.Fits) (hnone : ∀ i < T.count.toNat, T.header i < mhdr) (fuel start : Nat)
    (hstart : start ≤ T.count.toNat) (hfuel : T.count.toNat + 1 - start < fuel) :
    ∃ inspected found, search T mhdr fuel start (((T.count.toNat + 1 : Nat) : Int) - 1) =
      some (inspected, found) ∧ T.count.toNat ∈ inspected := by
  induction fuel generalizing start with
  | zero => exact absurd hfuel (Nat.not_lt_zero _)
  | succ fuel ih =>
    obtain ⟨inspected, found, hend⟩ := search_ends hfits mhdr _ start _ le_rfl hfuel
    rw [search_of_lt hfits (by omega) le_rfl] at hend ⊢
    rw [show start + (T.count.toNat + 1) - 1 = start + T.count.toNat by omega] at hend ⊢
    by_cases hlast : (start + T.count.toNat) / 2 = T.count.toNat
    · -- the middle is the end of the table, and the loop inspects it whatever is there
      rw [hlast] at hend ⊢
      refine ⟨inspected, found, hend, ?_⟩
      split_ifs at hend
      · cases hend
        exact List.mem_singleton_self _
      · obtain ⟨_, -, heq⟩ := Option.map_eq_some_iff.mp hend
        cases heq
        exact List.mem_cons_self
      · obtain ⟨_, -, heq⟩ := Option.map_eq_some_iff.mp hend
        cases heq
        exact List.mem_cons_self
    · have hmiddle := hnone ((start + T.count.toNat) / 2) (by omega)
      obtain ⟨inspected, found, hsearch, hmem⟩ :=
        ih ((start + T.count.toNat) / 2 + 1) (by omega) (by omega)
      rw [hfits.mhdrOf_eq (by omega), if_neg (Nat.ne_of_gt hmiddle), if_neg (Nat.lt_asymm hmiddle), hsearch]
      exact ⟨_, _, rfl, List.mem_cons_of_mem _ hmem⟩

/-! ## The search -/

theorem get_eq_search (hfits : T.Fits) : T.get mhdr =
    search T mhdr (T.count.toNat + 2) (0 : Nat) (((T.count.toNat + 1 : Nat) : Int) - 1) := by
  have hcount := hfits.count_lt
  rw [objc_headeropt_ro_t.get, int32_eq (by omega) (by omega)]
  norm_num

/-- The search ends for every table and header. -/
theorem get_ends (T : objc_headeropt_ro_t) (hfits : T.Fits) (mhdr : Nat) :
    ∃ inspected found, T.get mhdr = some (inspected, found) := by
  rw [get_eq_search hfits]
  exact search_ends hfits _ _ _ _ le_rfl (by omega)

/-- What the search is for: it ends, inspects entries of the table only, and returns the one
of the header, if there is one. -/
def Finds (T : objc_headeropt_ro_t) (mhdr : Nat) : Prop :=
  ∃ inspected found, T.get mhdr = some (inspected, found) ∧
    (∀ i, i ∈ inspected → i < T.count.toNat) ∧
      ∀ i, found = some i ↔ i < T.count.toNat ∧ T.header i = mhdr

/-- In a table that fits, the search is right if and only if there is an entry whose header
is not below the header that is looked for. -/
theorem get_right_iff (T : objc_headeropt_ro_t) (hfits : T.Fits) (mhdr : Nat) :
    Finds T mhdr ↔ ∃ i < T.count.toNat, mhdr ≤ T.header i := by
  rw [Finds, get_eq_search hfits]
  constructor
  · rintro ⟨inspected, found, hsearch, hinspected, -⟩
    by_contra hnone
    have hbelow : ∀ i < T.count.toNat, T.header i < mhdr := fun i hi =>
      Nat.lt_of_not_le fun hle => hnone ⟨i, hi, hle⟩
    obtain ⟨inspected', found', hsearch', hmem⟩ :=
      search_count hfits hbelow (T.count.toNat + 2) 0 (Nat.zero_le _) (by omega)
    rw [hsearch, Option.some.injEq, Prod.mk.injEq] at hsearch'
    rw [← hsearch'.1] at hmem
    exact Nat.lt_irrefl _ (hinspected _ hmem)
  · intro hsome
    have hbetween : Between T mhdr 0 (T.count.toNat + 1) :=
      ⟨fun j hj => absurd hj (Nat.not_lt_zero _), fun j hj hcount => by omega⟩
    exact search_right hfits hbetween le_rfl (by omega) hsome

/-! ## Tables without entries, and with three -/

def emptyTable : objc_headeropt_ro_t := ⟨0, 80, fun _ => 0, fun _ j _ hj => absurd hj (Nat.not_lt_zero j)⟩

/-- An empty table inspects what comes after it. -/
theorem get_of_emptyTable : ¬ Finds emptyTable 4096 := by
  rintro ⟨inspected, found, hget, hinspected, -⟩
  have hzero : emptyTable.get 4096 = some ([0], none) := by decide
  rw [hzero] at hget
  cases hget
  exact absurd (hinspected 0 (List.mem_singleton_self _)) (by decide)

def threeHeaders : objc_headeropt_ro_t where
  count := 3
  entsize := 80
  mhdr offset := 4096 * (offset / 80 + 1)
  sorted i j hij _ := by
    show 4096 * (i * 80 / 80 + 1) < 4096 * (j * 80 / 80 + 1)
    omega

example : threeHeaders.get 8192 = some ([1], some 1) := by decide

/-- The header of an entry is found, one between two entries is not there, and one after the
last entry is looked for beyond the table. -/
theorem get_right_iff_of_threeHeaders :
    threeHeaders.Fits ∧ Finds threeHeaders 4096 ∧ Finds threeHeaders 12288 ∧
      Finds threeHeaders 9000 ∧ ¬ Finds threeHeaders 12289 := by
  have hfits : threeHeaders.Fits := ⟨by decide, by decide⟩
  refine ⟨hfits, ?_, ?_, ?_, ?_⟩
  · exact (get_right_iff threeHeaders hfits 4096).mpr ⟨0, by decide, by decide⟩
  · exact (get_right_iff threeHeaders hfits 12288).mpr ⟨2, by decide, by decide⟩
  · exact (get_right_iff threeHeaders hfits 9000).mpr ⟨2, by decide, by decide⟩
  · rw [get_right_iff threeHeaders hfits 12289]
    decide

end objc_runtime.header_search
