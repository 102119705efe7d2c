-- What the updates of the hash table do: a store in a bucket, the move to new buckets, the insert
-- and the erase keep what holds of every table, and every other key, unless its value is purged.
import ObjcRuntime.DenseMap

open objc_runtime.quadratic

namespace objc_runtime.dense_map

variable {K V : Type} {info : Info K V} {m m' m'' : DenseMap K V} {key : K}

/-! ## One bucket -/

/-- A key keeps its value, or has lost a value that can be purged. -/
structure Keeps (info : Info K V) (m m' : DenseMap K V) (key : K) : Prop where
  kept : ∀ value, Holds m key value → Holds m' key value ∨ info.isPurgeable value = true
  old : ∀ value, Holds m' key value → Holds m key value

theorem Keeps.refl (info : Info K V) (m : DenseMap K V) (key : K) : Keeps info m m key :=
  ⟨fun _ => .inl, fun _ => id⟩

theorem Keeps.trans (h : Keeps info m m' key) (h' : Keeps info m' m'' key) :
    Keeps info m m'' key := by
  refine ⟨fun value hold => ?_, fun value hnew => h.old value (h'.old value hnew)⟩
  rcases h.kept value hold with hkept | hpurge
  · exact h'.kept value hkept
  · exact .inr hpurge

theorem not_holds_iff_keeps (h : Keeps info m m' key) (hno : ∀ value, ¬ Holds m key value) :
    ∀ value, ¬ Holds m' key value :=
  fun value hnew => hno value (h.old value hnew)

theorem of_getElem?_set {l : List (Bucket K V)} {i j : Nat} {b c : Bucket K V}
    (h : (l.set i c)[j]? = some b) : j = i ∧ c = b ∨ j ≠ i ∧ l[j]? = some b := by
  rw [List.getElem?_set] at h
  split at h
  · split at h
    · exact .inl ⟨Eq.symm ‹_›, Option.some.inj h⟩
    · cases h
  · exact .inr ⟨Ne.symm ‹_›, h⟩

theorem holds_set {i NE NT : Nat} {c : Bucket K V} (hi : i < m.Buckets.length) {value : V} :
    Holds ⟨m.Buckets.set i c, NE, NT⟩ key value ↔
      c = .pair key value ∨ ∃ j, j ≠ i ∧ m.Buckets[j]? = some (.pair key value) := by
  constructor
  · rintro ⟨j, hj⟩
    rcases of_getElem?_set hj with ⟨-, heq⟩ | hother
    · exact .inl heq
    · exact .inr ⟨j, hother⟩
  · rintro (rfl | ⟨j, hne, hj⟩)
    · exact ⟨i, List.getElem?_set_self hi⟩
    · exact ⟨j, by rw [List.getElem?_set_ne (Ne.symm hne)]; exact hj⟩

/-- A store that makes no bucket empty leaves the probes as they are. -/
theorem Reached.set {i j NE NT : Nat} {c : Bucket K V} (h : Reached info m key j)
    (hc : c ≠ .EmptyKey) : Reached info ⟨m.Buckets.set i c, NE, NT⟩ key j := by
  obtain ⟨n, hn, hfree⟩ := h
  have hsize : (⟨m.Buckets.set i c, NE, NT⟩ : DenseMap K V).NumBuckets = m.NumBuckets :=
    List.length_set
  refine ⟨n, by rw [hsize]; exact hn, fun n' hn' hempty => hfree n' hn' ?_⟩
  rw [bucketAt, hsize] at hempty
  rcases of_getElem?_set hempty with ⟨-, heq⟩ | ⟨-, hempty⟩
  · exact absurd heq hc
  · exact hempty

theorem Valid.set (h : Valid info m) {i NE NT : Nat} {b c : Bucket K V}
    (hb : m.Buckets[i]? = some b) (hc : c ≠ .EmptyKey)
    (hkey : ∀ key value, c = .pair key value →
      Reached info m key i ∧ ∀ (j : Nat) w, m.Buckets[j]? = some (.pair key w) → j = i)
    (hNE : NE + b.isPair.toNat = m.NumEntries + c.isPair.toNat)
    (hNT : NT + b.isTombstone.toNat = m.NumTombstones + c.isTombstone.toNat)
    (hroom : NE + NT < m.NumBuckets) : Valid info ⟨m.Buckets.set i c, NE, NT⟩ := by
  have hpair := countP_set (p := Bucket.isPair) hb c
  have htomb := countP_set (p := Bucket.isTombstone) hb c
  refine ⟨?_, fun j k v hj => ?_, fun j j' k v w hj hj' => ?_, ?_, ?_, .inr ?_⟩
  · rw [DenseMap.NumBuckets, List.length_set]
    exact h.sized
  · refine Reached.set ?_ hc
    rcases of_getElem?_set hj with ⟨rfl, heq⟩ | ⟨-, hj⟩
    · exact (hkey k v heq).1
    · exact h.reached j k v hj
  · rcases of_getElem?_set hj with ⟨rfl, heq⟩ | ⟨-, hold⟩ <;>
      rcases of_getElem?_set hj' with ⟨rfl, heq'⟩ | ⟨-, hold'⟩
    · rfl
    · exact ((hkey k v heq).2 j' w hold').symm
    · exact (hkey k w heq').2 j v hold
    · exact h.distinct j j' k v w hold hold'
  · have := h.entries
    dsimp only
    omega
  · have := h.tombstones
    dsimp only
    omega
  · rw [DenseMap.NumBuckets, List.length_set]
    exact hroom

/-- A store in a bucket that is not the key's, or has a value of it that is purged. -/
theorem keeps_set {i NE NT : Nat} {b c : Bucket K V} (hb : m.Buckets[i]? = some b)
    (hfree : ∀ value, b = .pair key value → info.isPurgeable value = true)
    (hkey : ∀ value, c ≠ .pair key value) :
    Keeps info m ⟨m.Buckets.set i c, NE, NT⟩ key := by
  have hi := (List.getElem?_eq_some_iff.mp hb).1
  constructor
  · rintro value ⟨j, hj⟩
    by_cases hji : j = i
    · subst hji
      exact .inr (hfree value (Option.some.inj (hb.symm.trans hj)))
    · exact .inl ((holds_set hi).mpr (.inr ⟨j, hji, hj⟩))
  · intro value hnew
    rcases (holds_set hi).mp hnew with heq | ⟨j, -, hj⟩
    · exact absurd heq (hkey value)
    · exact ⟨j, hj⟩

/-! ## New buckets -/

section grow

/-- Two buckets that are not of one key. -/
def Apart (b c : Bucket K V) : Prop := ∀ key v w, b = .pair key v → c ≠ .pair key w

theorem Valid.pairwise_apart (h : Valid info m) : m.Buckets.Pairwise Apart := by
  rw [List.pairwise_iff_getElem]
  intro i j hi hj hlt key v w hv hw
  have heq := h.distinct i j key v w (by rw [List.getElem?_eq_getElem hi, hv])
    (by rw [List.getElem?_eq_getElem hj, hw])
  omega

theorem Valid.not_tombstone (h : Valid info m) (hzero : m.NumTombstones = 0) {i : Nat} :
    m.Buckets[i]? ≠ some .TombstoneKey := by
  intro hi
  have hpos : 0 < m.Buckets.countP Bucket.isTombstone :=
    List.countP_pos_iff.mpr ⟨_, List.mem_of_getElem? hi, rfl⟩
  rw [← h.tombstones, hzero] at hpos
  exact Nat.lt_irrefl 0 hpos

/-- A new table: no tombstones, and no values that can be purged. -/
structure Fresh (info : Info K V) (m : DenseMap K V) : Prop extends Valid info m where
  no_tombstones : m.NumTombstones = 0
  kept : ∀ key value, Holds m key value → info.isPurgeable value = false

/-- What the new table has after the buckets `rest` are moved into it. -/
structure Moved (info : Info K V) (m : DenseMap K V) (rest : List (Bucket K V))
    (m' : DenseMap K V) : Prop where
  fresh : Fresh info m'
  size : m'.NumBuckets = m.NumBuckets
  entries : m'.NumEntries ≤ m.NumEntries + rest.countP Bucket.isPair
  holds : ∀ key value,
    Holds m' key value ↔ Holds m key value ∨ .pair key value ∈ rest ∧ info.isPurgeable value = false

variable [DecidableEq K]

theorem Fresh.moves (h : Fresh info m) {key : K} {value : V}
    (hkept : info.isPurgeable value = false) (hnew : ∀ w, ¬ Holds m key w)
    (hroom : m.NumEntries + 1 < m.NumBuckets) :
    ∃ m', moveBucket info m (.pair key value) = some m' ∧ Fresh info m' ∧
      m'.NumBuckets = m.NumBuckets ∧ m'.NumEntries = m.NumEntries + 1 ∧
      ∀ k v, Holds m' k v ↔ Holds m k v ∨ k = key ∧ v = value := by
  rcases h.lookup_cases key with ⟨i, v, hi, -⟩ | ⟨-, ⟨hzero, -⟩ | ⟨i, b, hlook, hb, hfree, hreach⟩⟩
  · exact absurd ⟨i, hi⟩ (hnew v)
  · omega
  · have hempty : b = .EmptyKey := by
      cases b with
      | EmptyKey => rfl
      | TombstoneKey => exact absurd hb (h.not_tombstone h.no_tombstones)
      | pair k v =>
        have hpurge : info.isPurgeable v = true := hfree
        rw [h.kept k v ⟨i, hb⟩] at hpurge
        cases hpurge
    subst hempty
    have hlt := (List.getElem?_eq_some_iff.mp hb).1
    have hholds : ∀ k v, Holds ⟨m.Buckets.set i (.pair key value), m.NumEntries + 1, m.NumTombstones⟩ k v ↔
        Holds m k v ∨ k = key ∧ v = value := by
      intro k v
      rw [holds_set hlt, or_comm]
      refine or_congr ⟨?_, ?_⟩ ?_
      · rintro ⟨j, -, hj⟩
        exact ⟨j, hj⟩
      · rintro ⟨j, hj⟩
        refine ⟨j, ?_, hj⟩
        rintro rfl
        rw [hb] at hj
        cases hj
      · rw [Bucket.pair.injEq, eq_comm, @eq_comm _ value]
    refine ⟨⟨m.Buckets.set i (.pair key value), m.NumEntries + 1, m.NumTombstones⟩, ?_,
      ⟨h.toValid.set hb (by simp) ?_ rfl rfl ?_, h.no_tombstones, ?_⟩, ?_, rfl, hholds⟩
    · simp [moveBucket, hkept, hlook]
    · rintro k v heq
      cases heq
      exact ⟨hreach, fun j w hj => absurd ⟨j, hj⟩ (hnew w)⟩
    · rw [h.no_tombstones]
      exact hroom
    · intro k v hkv
      rcases (hholds k v).mp hkv with hold | ⟨-, rfl⟩
      · exact h.kept k v hold
      · exact hkept
    · exact List.length_set

omit [DecidableEq K] in
theorem Moved.purge {b : Bucket K V} {rest : List (Bucket K V)} (h : Moved info m rest m')
    (hb : ∀ k v, b = .pair k v → info.isPurgeable v = true) : Moved info m (b :: rest) m' := by
  have hcount : rest.countP Bucket.isPair ≤ (b :: rest).countP Bucket.isPair :=
    (List.sublist_cons_self b rest).countP_le
  refine ⟨h.fresh, h.size, Nat.le_trans h.entries (Nat.add_le_add_left hcount _), fun k v => ?_⟩
  rw [h.holds, List.mem_cons]
  refine or_congr Iff.rfl (and_congr_left fun hkept => ⟨.inr, ?_⟩)
  rintro (heq | hmem)
  · rw [hb k v heq.symm] at hkept
    cases hkept
  · exact hmem

/-- All buckets of an old table go into the new one. -/
theorem Fresh.moves_all (rest : List (Bucket K V)) (h : Fresh info m)
    (hapart : rest.Pairwise Apart) (hnew : ∀ k v w, .pair k v ∈ rest → ¬ Holds m k w)
    (hroom : m.NumEntries + rest.countP Bucket.isPair < m.NumBuckets) :
    ∃ m', rest.foldlM (moveBucket info) m = some m' ∧ Moved info m rest m' := by
  induction rest generalizing m with
  | nil => exact ⟨m, rfl, h, rfl, Nat.le_add_right _ _, by simp⟩
  | cons b rest ih =>
    obtain ⟨hb, hrest⟩ := List.pairwise_cons.mp hapart
    have hpurged : moveBucket info m b = some m →
        (∀ k v, b = .pair k v → info.isPurgeable v = true) →
        ∃ m', (b :: rest).foldlM (moveBucket info) m = some m' ∧
          Moved info m (b :: rest) m' := by
      intro hmove hpurge
      have hcount : rest.countP Bucket.isPair ≤ (b :: rest).countP Bucket.isPair :=
        (List.sublist_cons_self b rest).countP_le
      obtain ⟨m', hm', hmoved⟩ := ih h hrest
        (fun k v w hmem => hnew k v w (List.mem_cons_of_mem _ hmem)) (by omega)
      refine ⟨m', ?_, hmoved.purge hpurge⟩
      rw [List.foldlM_cons, hmove]
      exact hm'
    cases b with
    | EmptyKey => exact hpurged rfl (fun _ _ h => by cases h)
    | TombstoneKey => exact hpurged rfl (fun _ _ h => by cases h)
    | pair key value =>
      cases hpurge : info.isPurgeable value with
      | true =>
        refine hpurged (by simp [moveBucket, hpurge]) fun k v heq => ?_
        cases heq
        exact hpurge
      | false =>
        have hcount : (Bucket.pair key value :: rest).countP Bucket.isPair =
            rest.countP Bucket.isPair + 1 := List.countP_cons_of_pos rfl
        obtain ⟨m₁, hmove, hfresh₁, hsize₁, hentries₁, hholds₁⟩ := h.moves hpurge
          (fun w => hnew key value w List.mem_cons_self) (by omega)
        obtain ⟨m', hm', hmoved⟩ := ih hfresh₁ hrest (fun k v w hmem hw => by
          rcases (hholds₁ k w).mp hw with hold | ⟨rfl, rfl⟩
          · exact hnew k v w (List.mem_cons_of_mem _ hmem) hold
          · exact hb _ hmem k w v rfl rfl) (by omega)
        have hentries := hmoved.entries
        refine ⟨m', ?_, hmoved.fresh, hmoved.size.trans hsize₁, by omega, fun k v => ?_⟩
        · rw [List.foldlM_cons, hmove]
          exact hm'
        · rw [hmoved.holds, hholds₁, List.mem_cons, Bucket.pair.injEq, or_assoc]
          refine or_congr Iff.rfl ⟨?_, ?_⟩
          · rintro (⟨rfl, rfl⟩ | ⟨hmem, hkept⟩)
            · exact ⟨.inl ⟨rfl, rfl⟩, hpurge⟩
            · exact ⟨.inr hmem, hkept⟩
          · rintro ⟨⟨rfl, rfl⟩ | hmem, hkept⟩
            · exact .inl ⟨rfl, rfl⟩
            · exact .inr ⟨hmem, hkept⟩

/-- New buckets have all pairs but those that are purged. -/
theorem Valid.grows (h : Valid info m) {AtLeast : Nat} (hsmall : AtLeast ≤ 2 ^ 30)
    (hroom : m.NumEntries < grownTo AtLeast) :
    ∃ m', grow info m AtLeast = some m' ∧ Fresh info m' ∧ m'.NumBuckets = grownTo AtLeast ∧
      m'.NumEntries ≤ m.NumEntries ∧
      ∀ k v, Holds m' k v ↔ Holds m k v ∧ info.isPurgeable v = false := by
  have hinit : Fresh info (initBuckets (grownTo AtLeast) : DenseMap K V) :=
    ⟨valid_initBuckets info (sized_grownTo hsmall).1, rfl,
      fun k v hkv => absurd hkv (not_holds_initBuckets _ k v)⟩
  have hsize : (initBuckets (grownTo AtLeast) : DenseMap K V).NumBuckets = grownTo AtLeast :=
    List.length_replicate
  have hentries := h.entries
  obtain ⟨m', hm', hmoved⟩ := hinit.moves_all m.Buckets h.pairwise_apart
    (fun k v w _ => not_holds_initBuckets _ k w) (by
      rw [hsize]
      simpa [initBuckets, ← hentries] using hroom)
  refine ⟨m', hm', hmoved.fresh, hmoved.size.trans hsize, ?_, fun k v => ?_⟩
  · simpa [initBuckets, ← hentries] using hmoved.entries
  · rw [hmoved.holds]
    refine ⟨?_, ?_⟩
    · rintro (hno | ⟨hmem, hkept⟩)
      · exact absurd hno (not_holds_initBuckets _ k v)
      · exact ⟨List.getElem?_of_mem hmem, hkept⟩
    · rintro ⟨⟨i, hi⟩, hkept⟩
      exact .inr ⟨List.mem_of_getElem? hi, hkept⟩

omit [DecidableEq K] in
theorem Keeps.of_grow (hholds : ∀ k v, Holds m' k v ↔ Holds m k v ∧ info.isPurgeable v = false)
    (key : K) : Keeps info m m' key := by
  refine ⟨fun value hold => ?_, fun value hnew => ((hholds key value).mp hnew).1⟩
  cases hpurge : info.isPurgeable value with
  | true => exact .inr rfl
  | false => exact .inl ((hholds key value).mpr ⟨hold, hpurge⟩)

end grow

/-! ## The insert -/

section insert

theorem Valid.entries_of_no_buckets (h : Valid info m) (hnone : m.NumBuckets = 0) :
    m.NumEntries = 0 := by
  rw [h.entries, List.eq_nil_of_length_eq_zero hnone]
  rfl

variable [DecidableEq K]

/-- The most entries that a table can have before an insert. -/
def MAX_ENTRIES : Nat := 2 ^ 28

/-- A table with room for a key that it does not have, in bucket `i`. -/
structure Ready (info : Info K V) (m : DenseMap K V) (key : K) (i : Nat) : Prop extends
    Valid info m where
  absent : ∀ value, ¬ Holds m key value
  free : ∃ b, m.Buckets[i]? = some b ∧ Free info b
  reaches : Reached info m key i
  room : m.NumEntries + 1 + m.NumTombstones < m.NumBuckets

theorem Fresh.ready (h : Fresh info m) (hno : ∀ value, ¬ Holds m key value)
    (hroom : m.NumEntries + 1 < m.NumBuckets) :
    ∃ i, LookupBucketFor info m key = .none (some i) ∧ Ready info m key i := by
  rcases h.lookup_cases key with ⟨i, v, hi, -⟩ | ⟨-, ⟨hzero, -⟩ | ⟨i, b, hlook, hb, hfree, hreach⟩⟩
  · exact absurd ⟨i, hi⟩ (hno v)
  · omega
  · refine ⟨i, hlook, h.toValid, hno, ⟨b, hb, hfree⟩, hreach, ?_⟩
    rw [h.no_tombstones]
    exact hroom

/-- An insert into new buckets. -/
theorem Valid.ready_of_grow (h : Valid info m) {AtLeast : Nat} (hsmall : AtLeast ≤ 2 ^ 30)
    (hno : ∀ value, ¬ Holds m key value) (hroom : m.NumEntries + 1 < grownTo AtLeast) :
    ∃ m' i, grow info m AtLeast = some m' ∧ LookupBucketFor info m' key = .none (some i) ∧
      Ready info m' key i ∧ ∀ k, Keeps info m m' k := by
  obtain ⟨m', hgrow, hfresh, hsize, hle, hholds⟩ := h.grows hsmall (Nat.lt_of_succ_lt hroom)
  have hkeeps := Keeps.of_grow hholds
  obtain ⟨i, hlook, hready⟩ := hfresh.ready (not_holds_iff_keeps (hkeeps key) hno) (by omega)
  exact ⟨m', i, hgrow, hlook, hready, hkeeps⟩

theorem Valid.makes_room (h : Valid info m) (hentries : m.NumEntries < MAX_ENTRIES)
    (hno : ∀ value, ¬ Holds m key value) {TheBucket : Option Nat}
    (hlook : LookupBucketFor info m key = .none TheBucket) :
    ∃ m' i, makeRoom info m key TheBucket = some (m', some i) ∧ Ready info m' key i ∧
      ∀ k, Keeps info m m' k := by
  have hsize := h.sized.le
  have hroomy := h.roomy
  have hzero := h.entries_of_no_buckets
  unfold MAX_ENTRIES at hentries
  have hnew : unsigned (m.NumEntries + 1) = m.NumEntries + 1 := unsigned_of_lt (by omega)
  have hload : unsigned ((m.NumEntries + 1) * 4) = (m.NumEntries + 1) * 4 := unsigned_of_lt (by omega)
  have hthird : unsigned (m.NumBuckets * 3) = m.NumBuckets * 3 := unsigned_of_lt (by omega)
  unfold makeRoom
  simp only [hnew, hload, hthird]
  split
  · -- more than 3/4 full
    have hdouble : unsigned (m.NumBuckets * 2) = m.NumBuckets * 2 := unsigned_of_lt (by omega)
    have hsmall : m.NumBuckets * 2 ≤ 2 ^ 30 := by omega
    have hgrown := sized_grownTo hsmall
    unfold MIN_BUCKETS at hgrown
    obtain ⟨m', i, hgrow, hlook', hready, hkeeps⟩ := h.ready_of_grow hsmall hno (by omega)
    exact ⟨m', i, by simp [hdouble, hgrow, hlook'], hready, hkeeps⟩
  · have hused : unsigned (m.NumEntries + 1 + m.NumTombstones) =
        m.NumEntries + 1 + m.NumTombstones := unsigned_of_lt (by omega)
    rw [hused]
    split
    · -- too few buckets are empty
      have hgrown := sized_grownTo hsize
      obtain ⟨m', i, hgrow, hlook', hready, hkeeps⟩ := h.ready_of_grow hsize hno (by omega)
      exact ⟨m', i, by simp [hgrow, hlook'], hready, hkeeps⟩
    · rename_i hfull hempty
      have hsub : unsigned (m.NumBuckets + 2 ^ 32 - (m.NumEntries + 1 + m.NumTombstones)) =
          m.NumBuckets - (m.NumEntries + 1 + m.NumTombstones) := by
        unfold unsigned
        omega
      rw [hsub] at hempty
      rcases h.lookup_cases key with ⟨i, v, hi, -⟩ | ⟨-, ⟨hnone, -⟩ | ⟨i, b, hlook', hb, hfree, hreach⟩⟩
      · exact absurd ⟨i, hi⟩ (hno v)
      · omega
      · obtain rfl : TheBucket = some i := by
          rw [hlook] at hlook'
          exact Found.none.inj hlook'
        exact ⟨m, i, rfl, ⟨h, hno, ⟨b, hb, hfree⟩, hreach, by omega⟩, Keeps.refl info m⟩

/-- What an insert of a key leaves. -/
structure Inserted (info : Info K V) (m m' : DenseMap K V) (key : K) (value : V) (i : Nat) :
    Prop extends Valid info m' where
  bucket : m'.Buckets[i]? = some (.pair key value)
  keeps : ∀ k, k ≠ key → Keeps info m m' k

omit [DecidableEq K] in
theorem Ready.inserted {i NE NT : Nat} (h : Ready info m key i) (value : V) {b : Bucket K V}
    (hb : m.Buckets[i]? = some b) (hfree : Free info b)
    (hNE : NE + b.isPair.toNat = m.NumEntries + 1)
    (hNT : NT + b.isTombstone.toNat = m.NumTombstones) :
    Inserted info m ⟨m.Buckets.set i (.pair key value), NE, NT⟩ key value i := by
  have hroom := h.room
  refine ⟨h.toValid.set hb (by simp) ?_ hNE hNT (by omega), ?_, fun k hk => ?_⟩
  · intro k v heq
    cases heq
    exact ⟨h.reaches, fun j w hj => absurd ⟨j, hj⟩ (h.absent w)⟩
  · exact List.getElem?_set_self (List.getElem?_eq_some_iff.mp hb).1
  · refine keeps_set hb (fun v heq => ?_) fun v heq => hk (Bucket.pair.inj heq).1.symm
    subst heq
    exact hfree

theorem Valid.inserts (h : Valid info m) (hentries : m.NumEntries < MAX_ENTRIES)
    (hno : ∀ value, ¬ Holds m key value) {TheBucket : Option Nat}
    (hlook : LookupBucketFor info m key = .none TheBucket) (value : V) :
    ∃ m' i, InsertIntoBucket info m TheBucket key value = some (m', i) ∧
      Inserted info m m' key value i := by
  obtain ⟨m₁, i, hmake, hready, hkeeps⟩ := h.makes_room hentries hno hlook
  obtain ⟨b, hb, hfree⟩ := hready.free
  have hafter : ∀ NE NT, NE + b.isPair.toNat = m₁.NumEntries + 1 →
      NT + b.isTombstone.toNat = m₁.NumTombstones →
      Inserted info m ⟨m₁.Buckets.set i (.pair key value), NE, NT⟩ key value i := by
    intro NE NT hNE hNT
    have hins := hready.inserted value hb hfree hNE hNT
    exact ⟨hins.toValid, hins.bucket, fun k hk => (hkeeps k).trans (hins.keeps k hk)⟩
  unfold InsertIntoBucket
  simp only [hmake, hb]
  cases b with
  | EmptyKey => exact ⟨_, i, rfl, hafter _ _ rfl rfl⟩
  | TombstoneKey =>
    have hpos : 0 < m₁.Buckets.countP Bucket.isTombstone :=
      List.countP_pos_iff.mpr ⟨_, List.mem_of_getElem? hb, rfl⟩
    have htomb := hready.tombstones
    refine ⟨_, i, rfl, hafter _ _ rfl ?_⟩
    simp only [Bucket.isTombstone, Bool.toNat_true]
    omega
  | pair k v => exact ⟨_, i, rfl, hafter _ _ rfl rfl⟩

end insert

/-! ## The operations -/

section operations

theorem Valid.entries_eq_zero (h : Valid info m) (hzero : m.NumEntries = 0) :
    ∀ value, ¬ Holds m key value := by
  rintro value ⟨i, hi⟩
  have hpos : 0 < m.Buckets.countP Bucket.isPair :=
    List.countP_pos_iff.mpr ⟨_, List.mem_of_getElem? hi, rfl⟩
  rw [← h.entries, hzero] at hpos
  exact Nat.lt_irrefl 0 hpos

theorem keeps_initBuckets {n : Nat} (hno : ∀ value, ¬ Holds m key value) :
    Keeps info m (initBuckets n) key :=
  ⟨fun value hold => absurd hold (hno value),
    fun value hnew => absurd hnew (not_holds_initBuckets n key value)⟩

theorem shrink_and_clear_eq (hentries : m.NumEntries ≤ MAX_ENTRIES) :
    ∃ n, Sized n ∧ shrink_and_clear m = initBuckets n := by
  unfold MAX_ENTRIES at hentries
  unfold shrink_and_clear
  have hsized : ∃ NewNumBuckets, NewNumBuckets ≤ 2 ^ 29 ∧ Sized NewNumBuckets ∧
      (if m.NumEntries = 0 then 0 else max MIN_BUCKETS (2 ^ (Log2_32_Ceil m.NumEntries + 1))) =
        NewNumBuckets := by
    refine ⟨_, ?_, ?_, rfl⟩ <;> split
    · exact Nat.zero_le _
    · rw [Log2_32_Ceil_eq (Nat.pos_of_ne_zero ‹_›) hentries]
      have hsize : (m.NumEntries - 1).size ≤ 28 := Nat.size_le.mpr (by omega)
      exact Nat.max_le.mpr ⟨by decide, Nat.pow_le_pow_right (by decide) (by omega)⟩
    · exact .inl rfl
    · rw [Log2_32_Ceil_eq (Nat.pos_of_ne_zero ‹_›) hentries]
      have hsize : (m.NumEntries - 1).size ≤ 28 := Nat.size_le.mpr (by omega)
      exact sized_max (.inr ⟨_, by omega, rfl⟩)
  obtain ⟨NewNumBuckets, hle, hsized, heq⟩ := hsized
  dsimp only
  rw [heq]
  split
  · exact ⟨_, hsized, rfl⟩
  · exact ⟨_, sized_getMinBucketToReserveForEntries hle, rfl⟩

variable [DecidableEq K]

/-- A lookup finds the value that the table has for the key. -/
theorem Valid.lookup_iff (h : Valid info m) {value : V} :
    lookup info m key = some value ↔ Holds m key value := by
  unfold lookup find valueAt
  rcases h.lookup_cases key with ⟨i, v, hi, hlook⟩ | ⟨hno, hlook⟩
  · simp only [hlook, Option.bind_some, hi, Option.some.injEq]
    constructor
    · rintro rfl
      exact ⟨i, hi⟩
    · rintro ⟨j, hj⟩
      obtain rfl := h.distinct i j key v value hi hj
      rw [hi] at hj
      exact (Bucket.pair.inj (Option.some.inj hj)).2
  · rcases hlook with ⟨-, hlook⟩ | ⟨i, b, hlook, -⟩
    · simpa [hlook] using hno value
    · simpa [hlook] using hno value

theorem Valid.lookup_none (h : Valid info m) :
    lookup info m key = none ↔ ∀ value, ¬ Holds m key value := by
  rw [Option.eq_none_iff_forall_ne_some]
  exact forall_congr' fun value => not_congr h.lookup_iff

/-- The probes of a valid table end. -/
theorem Valid.not_corrupt (h : Valid info m) (key : K) :
    LookupBucketFor info m key ≠ .FatalCorruptHashTables := by
  rcases h.lookup_cases key with ⟨i, v, -, hlook⟩ | ⟨-, ⟨-, hlook⟩ | ⟨i, b, hlook, -⟩⟩ <;>
    rw [hlook] <;> simp

/-- What an operation on one key leaves. -/
structure Updated (info : Info K V) (m m' : DenseMap K V) (key : K) (result : Option V) : Prop
    extends Valid info m' where
  result : lookup info m' key = result
  keeps : ∀ k, k ≠ key → Keeps info m m' k

theorem Inserted.lookup {value : V} {i : Nat} (h : Inserted info m m' key value i) :
    lookup info m' key = some value := h.toValid.lookup_iff.mpr ⟨i, h.bucket⟩

/-- A store through a reference. -/
theorem Valid.stores (h : Valid info m) {i : Nat} {value : V}
    (hi : m.Buckets[i]? = some (.pair key value)) (f : V → V) :
    Updated info m (store m i f) key (some (f value)) := by
  have hroomy := h.roomy
  have hlt := (List.getElem?_eq_some_iff.mp hi).1
  have hstore : store m i f =
      ⟨m.Buckets.set i (.pair key (f value)), m.NumEntries, m.NumTombstones⟩ := by
    simp [store, hi]
  have hvalid : Valid info (store m i f) := by
    rw [hstore]
    refine h.set hi (by simp) ?_ rfl rfl (hroomy.resolve_left ?_)
    · intro k v heq
      cases heq
      exact ⟨h.reached i key value hi, fun j w hj => h.distinct j i key w value hj hi⟩
    · exact Nat.ne_of_gt (Nat.zero_lt_of_lt hlt)
  refine ⟨hvalid, hvalid.lookup_iff.mpr ⟨i, ?_⟩, fun k hk => ?_⟩
  · rw [hstore]
    exact List.getElem?_set_self hlt
  · rw [hstore]
    exact keeps_set hi (fun v heq => absurd (Bucket.pair.inj heq).1.symm hk)
      fun v heq => hk (Bucket.pair.inj heq).1.symm

/-- `try_emplace` finds the key or inserts it, and gives its bucket. -/
theorem Valid.try_emplaces (h : Valid info m) (hentries : m.NumEntries < MAX_ENTRIES) (key : K)
    (value : V) :
    ∃ m' i inserted now, try_emplace info m key value = some (m', i, inserted) ∧
      (inserted = true ∧ lookup info m key = none ∧ now = value ∨
        inserted = false ∧ lookup info m key = some now ∧ m' = m) ∧
      m'.Buckets[i]? = some (.pair key now) ∧ Updated info m m' key (some now) := by
  rcases h.lookup_cases key with ⟨i, v, hi, hlook⟩ | ⟨hno, hlook⟩
  · have hfound := h.lookup_iff.mpr ⟨i, hi⟩
    exact ⟨m, i, false, v, by simp [try_emplace, hlook], .inr ⟨rfl, hfound, rfl⟩, hi, h, hfound,
      fun k _ => Keeps.refl info m k⟩
  · obtain ⟨TheBucket, hlook⟩ : ∃ TheBucket, LookupBucketFor info m key = .none TheBucket := by
      rcases hlook with ⟨-, hlook⟩ | ⟨i, b, hlook, -⟩
      · exact ⟨_, hlook⟩
      · exact ⟨_, hlook⟩
    obtain ⟨m', i, hinsert, hins⟩ := h.inserts hentries hno hlook value
    exact ⟨m', i, true, value, by simp [try_emplace, hlook, hinsert],
      .inl ⟨rfl, h.lookup_none.mpr hno, rfl⟩, hins.bucket, hins.toValid, hins.lookup, hins.keeps⟩

/-- `operator[]` is `try_emplace` of a value that is constructed in place. -/
theorem FindAndConstruct_eq [Inhabited V] (m : DenseMap K V) (key : K) :
    FindAndConstruct info m key =
      (try_emplace info m key default).map fun r => (r.1, r.2.1) := by
  unfold FindAndConstruct try_emplace
  cases LookupBucketFor info m key with
  | bucket i => rfl
  | none TheBucket =>
    dsimp only
    cases InsertIntoBucket info m TheBucket key default <;> rfl
  | FatalCorruptHashTables => rfl

theorem Updated.trans {r r' : Option V} (h : Updated info m m' key r)
    (h' : Updated info m' m'' key r') : Updated info m m'' key r' :=
  ⟨h'.toValid, h'.result, fun k hk => (h.keeps k hk).trans (h'.keeps k hk)⟩

/-- `operator[]` gives a bucket that has the value of the key, or a new one. -/
theorem Valid.constructs [Inhabited V] (h : Valid info m) (hentries : m.NumEntries < MAX_ENTRIES)
    (key : K) :
    ∃ m' i, FindAndConstruct info m key = some (m', i) ∧
      m'.Buckets[i]? = some (.pair key ((lookup info m key).getD default)) ∧
      Updated info m m' key (some ((lookup info m key).getD default)) := by
  obtain ⟨m', i, inserted, now, hemplace, hnow, hbucket, hupd⟩ :=
    h.try_emplaces hentries key default
  obtain rfl : (lookup info m key).getD default = now := by
    rcases hnow with ⟨-, hnone, rfl⟩ | ⟨-, hsome, -⟩
    · rw [hnone]
      rfl
    · rw [hsome]
      rfl
  exact ⟨m', i, by rw [FindAndConstruct_eq, hemplace]; rfl, hbucket, hupd⟩

theorem Valid.assigns [Inhabited V] (h : Valid info m) (hentries : m.NumEntries < MAX_ENTRIES)
    (key : K) (f : V → V) :
    ∃ m', assign info m key f = some m' ∧
      Updated info m m' key (some (f ((lookup info m key).getD default))) := by
  obtain ⟨m', i, hconstruct, hbucket, hupd⟩ := h.constructs hentries key
  refine ⟨store m' i f, ?_, hupd.trans (hupd.toValid.stores hbucket f)⟩
  rw [assign, hconstruct]
  rfl

/-- What `find` gives: the bucket of the key, or `end()`. -/
theorem Valid.find_cases (h : Valid info m) (key : K) :
    (∃ i value, find info m key = some i ∧ m.Buckets[i]? = some (.pair key value) ∧
      lookup info m key = some value) ∨
    find info m key = none ∧ lookup info m key = none := by
  rcases h.lookup_cases key with ⟨i, value, hi, hlook⟩ | ⟨hno, hlook⟩
  · exact .inl ⟨i, value, by rw [find, hlook], hi, h.lookup_iff.mpr ⟨i, hi⟩⟩
  · refine .inr ⟨?_, h.lookup_none.mpr hno⟩
    rcases hlook with ⟨-, hlook⟩ | ⟨i, b, hlook, -⟩ <;> rw [find, hlook]

omit [DecidableEq K] in
theorem valueAt_eq {i : Nat} {value : V} (hi : m.Buckets[i]? = some (.pair key value)) :
    valueAt m i = some value := by
  rw [valueAt, hi]

/-- `compact` keeps what the table has. -/
theorem Valid.compacts (h : Valid info m) :
    ∃ m', compact info m = some m' ∧ Valid info m' ∧ ∀ k, Keeps info m m' k := by
  have hsize := h.sized.le
  unfold compact
  split
  · obtain ⟨n, hsized, heq⟩ := shrink_and_clear_eq (m := m) (by simp [*])
    refine ⟨_, rfl, ?_, fun k => ?_⟩ <;> rw [heq]
    · exact valid_initBuckets info hsized
    · exact keeps_initBuckets (h.entries_eq_zero ‹_›)
  · split
    · have hdouble : unsigned (m.NumEntries * 2) = m.NumEntries * 2 := unsigned_of_lt (by omega)
      have hsmall : m.NumEntries * 2 ≤ 2 ^ 30 := by omega
      have hgrown := sized_grownTo hsmall
      obtain ⟨m', hgrow, hfresh, -, -, hholds⟩ := h.grows hsmall (by omega)
      rw [hdouble]
      exact ⟨m', hgrow, hfresh.toValid, Keeps.of_grow hholds⟩
    · exact ⟨m, rfl, h, Keeps.refl info m⟩

theorem Valid.erasesAt (h : Valid info m) {i : Nat} {value : V}
    (hi : m.Buckets[i]? = some (.pair key value)) :
    ∃ m', eraseAt info m i = some m' ∧ Updated info m m' key none := by
  have hlt := (List.getElem?_eq_some_iff.mp hi).1
  have hroomy := h.roomy.resolve_left (Nat.ne_of_gt (Nat.zero_lt_of_lt hlt))
  have hpos : 0 < m.Buckets.countP Bucket.isPair :=
    List.countP_pos_iff.mpr ⟨_, List.mem_of_getElem? hi, rfl⟩
  rw [← h.entries] at hpos
  have hmarked : Valid info ⟨m.Buckets.set i .TombstoneKey, m.NumEntries - 1, m.NumTombstones + 1⟩ := by
    refine h.set hi (by simp) (fun k v heq => by cases heq) ?_ rfl (by omega)
    simp only [Bucket.isPair, Bool.toNat_true, Bool.toNat_false]
    omega
  obtain ⟨m', hcompact, hvalid, hkeeps⟩ := hmarked.compacts
  refine ⟨m', hcompact, hvalid, hvalid.lookup_none.mpr fun v hv => ?_, fun k hk => ?_⟩
  · rcases (holds_set hlt).mp ((hkeeps key).old v hv) with heq | ⟨j, hne, hj⟩
    · cases heq
    · exact hne (h.distinct j i key v value hj hi)
  · refine Keeps.trans (keeps_set hi (fun v heq => ?_) fun v heq => by cases heq) (hkeeps k)
    exact absurd (Bucket.pair.inj heq).1.symm hk

theorem Valid.erases (h : Valid info m) (key : K) :
    ∃ m', erase info m key = some (m', (lookup info m key).isSome) ∧
      Updated info m m' key none := by
  rcases h.lookup_cases key with ⟨i, value, hi, hlook⟩ | ⟨hno, hlook⟩
  · obtain ⟨m', herase, hupd⟩ := h.erasesAt hi
    refine ⟨m', ?_, hupd⟩
    simp [erase, hlook, herase, h.lookup_iff.mpr ⟨i, hi⟩]
  · have hnone := h.lookup_none.mpr hno
    refine ⟨m, ?_, h, hnone, fun k _ => Keeps.refl info m k⟩
    rcases hlook with ⟨-, hlook⟩ | ⟨i, b, hlook, -⟩ <;> simp [erase, hlook, hnone]

omit [DecidableEq K] in
theorem Valid.clears (h : Valid info m) :
    Valid info (clear m) ∧ ∀ key value, ¬ Holds (clear m) key value := by
  have hsize := h.sized.le
  have hroomy := h.roomy
  unfold clear
  split
  · exact ⟨h, fun key => h.entries_eq_zero ‹_ ∧ _›.1⟩
  · split
    · have hfew : m.NumEntries ≤ MAX_ENTRIES := by
        have hload : unsigned (m.NumEntries * 4) = m.NumEntries * 4 := unsigned_of_lt (by omega)
        unfold MAX_ENTRIES
        omega
      obtain ⟨n, hsized, heq⟩ := shrink_and_clear_eq hfew
      rw [heq]
      exact ⟨valid_initBuckets info hsized, not_holds_initBuckets n⟩
    · exact ⟨valid_initBuckets info h.sized, not_holds_initBuckets _⟩

theorem Valid.reserves (h : Valid info m) {NumEntries : Nat} (hsmall : NumEntries ≤ 2 ^ 29) :
    ∃ m', reserve info m NumEntries = some m' ∧ Valid info m' ∧ ∀ k, Keeps info m m' k := by
  have hroomy := h.roomy
  have hsized := sized_getMinBucketToReserveForEntries hsmall
  unfold reserve
  dsimp only
  split
  · have hgrown := sized_grownTo hsized.le
    have hentries := h.entries_of_no_buckets
    obtain ⟨m', hgrow, hfresh, -, -, hholds⟩ := h.grows hsized.le (by omega)
    exact ⟨m', hgrow, hfresh.toValid, Keeps.of_grow hholds⟩
  · exact ⟨m, rfl, h, Keeps.refl info m⟩

end operations

end objc_runtime.dense_map
