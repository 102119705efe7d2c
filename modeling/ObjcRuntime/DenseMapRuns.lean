-- The hash table is a finite map: in every run of operations no probe fails, every answer is that of
-- the map, and the table has just the pairs of the map.
import ObjcRuntime.DenseMapUpdates
import Mathlib.Data.List.Nodup

namespace objc_runtime.dense_map

variable {K V : Type}

inductive Op (K V : Type)
  | try_emplace (Key : K) (Value : V)
  | assign (Key : K) (f : V → V)
  | erase (Key : K)
  | clear
  | reserve (NumEntries : Nat)

section model

variable [DecidableEq K] [Inhabited V]

/-- An operation on the table, with what it returns. -/
def perform (info : Info K V) (m : DenseMap K V) : Op K V → Option (DenseMap K V × Bool)
  | .try_emplace Key Value => (try_emplace info m Key Value).map fun r => (r.1, r.2.2)
  | .assign Key f => (assign info m Key f).map (·, true)
  | .erase Key => erase info m Key
  | .clear => some (clear m, true)
  | .reserve NumEntries => (reserve info m NumEntries).map (·, true)

def performs (info : Info K V) (m : DenseMap K V) : List (Op K V) → Option (DenseMap K V × List Bool)
  | [] => some (m, [])
  | op :: ops => (perform info m op).bind fun r =>
    (performs info r.1 ops).map fun s => (s.1, r.2 :: s.2)

/-- The same operation on a map. -/
def apply (c : K → Option V) : Op K V → (K → Option V) × Bool
  | .try_emplace Key Value =>
    (Function.update c Key (some ((c Key).getD Value)), (c Key).isNone)
  | .assign Key f => (Function.update c Key (some (f ((c Key).getD default))), true)
  | .erase Key => (Function.update c Key none, (c Key).isSome)
  | .clear => (fun _ => none, true)
  | .reserve _ => (c, true)

def applies (c : K → Option V) : List (Op K V) → (K → Option V) × List Bool
  | [] => (c, [])
  | op :: ops => ((applies (apply c op).1 ops).1, (apply c op).2 :: (applies (apply c op).1 ops).2)

end model

/-- A map with fewer keys than a table can have entries before an insert. -/
def Few (c : K → Option V) : Prop :=
  ∃ ks : List K, ks.length < MAX_ENTRIES ∧ ∀ k, c k ≠ none → k ∈ ks

variable {info : Info K V} {m m' : DenseMap K V} {key : K}

/-! ## The entries are the keys -/

def Bucket.key? : Bucket K V → Option K
  | .pair key _ => some key
  | _ => none

def keys (m : DenseMap K V) : List K := m.Buckets.filterMap Bucket.key?

theorem mem_keys : key ∈ keys m ↔ ∃ value, Holds m key value := by
  rw [keys, List.mem_filterMap]
  constructor
  · rintro ⟨b, hb, hkey⟩
    cases b with
    | pair k v =>
      obtain rfl := Option.some.inj hkey
      exact ⟨v, List.getElem?_of_mem hb⟩
    | EmptyKey => cases hkey
    | TombstoneKey => cases hkey
  · rintro ⟨value, i, hi⟩
    exact ⟨_, List.mem_of_getElem? hi, rfl⟩

theorem Valid.nodup_keys (h : Valid info m) : (keys m).Nodup := by
  refine List.Pairwise.filterMap _ ?_ h.pairwise_apart
  intro b c hapart k hk k' hk'
  cases b with
  | pair key v =>
    cases c with
    | pair key' w =>
      obtain rfl := Option.some.inj hk
      obtain rfl := Option.some.inj hk'
      rintro rfl
      exact hapart _ v w rfl rfl
    | EmptyKey => cases hk'
    | TombstoneKey => cases hk'
  | EmptyKey => cases hk
  | TombstoneKey => cases hk

theorem Valid.length_keys (h : Valid info m) : (keys m).length = m.NumEntries := by
  rw [h.entries, keys]
  induction m.Buckets with
  | nil => rfl
  | cons b rest ih => cases b <;> 
      simp [List.filterMap_cons, List.countP_cons, Bucket.isPair, Bucket.key?, ih]

/-- A table that has no other keys than a map with few has room for an insert. -/
theorem Valid.entries_lt (h : Valid info m) {c : K → Option V} (hfew : Few c)
    (hkeys : ∀ k v, Holds m k v → c k ≠ none) : m.NumEntries < MAX_ENTRIES := by
  obtain ⟨ks, hlt, hks⟩ := hfew
  rw [← h.length_keys]
  refine Nat.lt_of_le_of_lt (h.nodup_keys.subperm fun k hk => ?_).length_le hlt
  obtain ⟨v, hv⟩ := mem_keys.mp hk
  exact hks k (hkeys k v hv)

/-! ## Runs -/

variable [DecidableEq K] [Inhabited V]

/-- The table has just what the map has. -/
def Same (info : Info K V) (m : DenseMap K V) (c : K → Option V) : Prop := ∀ k, lookup info m k = c k

omit [Inhabited V] in
theorem Valid.same_of_keeps (h : Valid info m) (h' : Valid info m')
    (hkeep : ∀ value, info.isPurgeable value = false) {k : K} (hk : Keeps info m m' k) :
    lookup info m' k = lookup info m k := by
  refine Option.ext fun v => ?_
  rw [h.lookup_iff, h'.lookup_iff]
  refine ⟨hk.old v, fun hold => (hk.kept v hold).resolve_right ?_⟩
  rw [hkeep v]
  exact Bool.false_ne_true

omit [Inhabited V] in
theorem Updated.same {c : K → Option V} {r : Option V} (h : Updated info m m' key r)
    (hvalid : Valid info m) (hkeep : ∀ value, info.isPurgeable value = false)
    (hsame : Same info m c) : Same info m' (Function.update c key r) := by
  intro k
  by_cases hk : k = key
  · subst hk
    rw [Function.update_self]
    exact h.result
  · rw [Function.update_of_ne hk, hvalid.same_of_keeps h.toValid hkeep (h.keeps k hk)]
    exact hsame k

/-- One operation does to the table what it does to the map. -/
theorem Valid.perform_same (h : Valid info m) (hkeep : ∀ value, info.isPurgeable value = false)
    {c : K → Option V} (hsame : Same info m c) (hfew : Few c) {op : Op K V}
    (hop : ∀ n, op = .reserve n → n ≤ 2 ^ 29) :
    ∃ m', perform info m op = some (m', (apply c op).2) ∧ Valid info m' ∧
      Same info m' (apply c op).1 := by
  have hentries : m.NumEntries < MAX_ENTRIES := h.entries_lt hfew fun k v hv => by
    rw [← hsame k, h.lookup_iff.mpr hv]
    exact Option.some_ne_none v
  cases op with
  | try_emplace Key Value =>
    obtain ⟨m', i, inserted, now, hemplace, hnow, -, hupd⟩ := h.try_emplaces hentries Key Value
    have hresult : inserted = (c Key).isNone ∧ now = (c Key).getD Value := by
      rw [← hsame Key]
      rcases hnow with ⟨rfl, hnone, rfl⟩ | ⟨rfl, hsome, -⟩
      · rw [hnone]
        exact ⟨rfl, rfl⟩
      · rw [hsome]
        exact ⟨rfl, rfl⟩
    obtain ⟨rfl, rfl⟩ := hresult
    exact ⟨m', by rw [perform, hemplace]; rfl, hupd.toValid, hupd.same h hkeep hsame⟩
  | assign Key f =>
    obtain ⟨m', hassign, hupd⟩ := h.assigns hentries Key f
    rw [hsame Key] at hupd
    exact ⟨m', by rw [perform, hassign]; rfl, hupd.toValid, hupd.same h hkeep hsame⟩
  | erase Key =>
    obtain ⟨m', herase, hupd⟩ := h.erases Key
    rw [hsame Key] at herase
    exact ⟨m', herase, hupd.toValid, hupd.same h hkeep hsame⟩
  | clear =>
    obtain ⟨hvalid, hno⟩ := h.clears
    exact ⟨clear m, rfl, hvalid, fun k => hvalid.lookup_none.mpr (hno k)⟩
  | reserve n =>
    obtain ⟨m', hreserve, hvalid, hkeeps⟩ := h.reserves (hop n rfl)
    exact ⟨m', by rw [perform, hreserve]; rfl, hvalid,
      fun k => (h.same_of_keeps hvalid hkeep (hkeeps k)).trans (hsame k)⟩

/-- All operations of a run do. -/
theorem Valid.performs_same (ops : List (Op K V)) (h : Valid info m)
    (hkeep : ∀ value, info.isPurgeable value = false) {c : K → Option V} (hsame : Same info m c)
    (hfew : ∀ before, before <+: ops → Few (applies c before).1)
    (hops : ∀ n, .reserve n ∈ ops → n ≤ 2 ^ 29) :
    ∃ m', performs info m ops = some (m', (applies c ops).2) ∧ Valid info m' ∧
      Same info m' (applies c ops).1 := by
  induction ops generalizing m c with
  | nil => exact ⟨m, rfl, h, hsame⟩
  | cons op ops ih =>
    have hfirst : ∀ n, op = .reserve n → n ≤ 2 ^ 29 := fun n heq =>
      hops n (heq ▸ List.mem_cons_self)
    obtain ⟨m₁, hop, hvalid₁, hsame₁⟩ :=
      h.perform_same hkeep hsame (hfew [] List.nil_prefix) hfirst
    obtain ⟨m', hrun, hvalid, hsame'⟩ := ih hvalid₁ hsame₁
      (fun before hpre => hfew (op :: before) (List.cons_prefix_cons.mpr ⟨rfl, hpre⟩))
      fun n hmem => hops n (List.mem_cons_of_mem _ hmem)
    refine ⟨m', ?_, hvalid, hsame'⟩
    rw [performs, hop, Option.bind_some, hrun]
    rfl

/-- The key that an operation can make. -/
def Op.key? : Op K V → Option K
  | .try_emplace Key _ | .assign Key _ => some Key
  | _ => none

theorem apply_key {c : K → Option V} {op : Op K V} {k : K} (h : (apply c op).1 k ≠ none) :
    c k ≠ none ∨ op.key? = some k := by
  cases op with
  | try_emplace Key Value =>
    by_cases hk : k = Key
    · exact .inr (congrArg some hk.symm)
    · exact .inl (by simpa [apply, Function.update_of_ne hk] using h)
  | assign Key f =>
    by_cases hk : k = Key
    · exact .inr (congrArg some hk.symm)
    · exact .inl (by simpa [apply, Function.update_of_ne hk] using h)
  | erase Key =>
    by_cases hk : k = Key
    · subst hk
      simp [apply] at h
    · exact .inl (by simpa [apply, Function.update_of_ne hk] using h)
  | clear => exact absurd rfl h
  | reserve n => exact .inl h

theorem applies_key {ops : List (Op K V)} {c : K → Option V} {k : K}
    (h : (applies c ops).1 k ≠ none) : c k ≠ none ∨ k ∈ ops.filterMap Op.key? := by
  induction ops generalizing c with
  | nil => exact .inl h
  | cons op ops ih =>
    rw [List.mem_filterMap]
    rcases ih h with hk | hk
    · rcases apply_key hk with hc | hop
      · exact .inl hc
      · exact .inr ⟨op, List.mem_cons_self, hop⟩
    · obtain ⟨op', hmem, hop'⟩ := List.mem_filterMap.mp hk
      exact .inr ⟨op', List.mem_cons_of_mem _ hmem, hop'⟩

/-- A run of fewer operations makes fewer keys. -/
theorem few_applies {ops before : List (Op K V)} (hfew : ops.length < MAX_ENTRIES)
    (hpre : before <+: ops) : Few (applies (fun _ => none) before).1 := by
  refine ⟨before.filterMap Op.key?, ?_, fun k hk => (applies_key hk).resolve_left (absurd rfl)⟩
  exact Nat.lt_of_le_of_lt (Nat.le_trans (List.length_filterMap_le _ _) hpre.length_le) hfew

theorem a_table_is_a_map (info : Info K V) (hkeep : ∀ value, info.isPurgeable value = false)
    {InitNumEntries : Nat} (hinit : InitNumEntries ≤ 2 ^ 29) (ops : List (Op K V))
    (hfew : ∀ before, before <+: ops → Few (applies (fun _ => none) before).1)
    (hops : ∀ n, .reserve n ∈ ops → n ≤ 2 ^ 29) :
    ∃ m, performs info (init InitNumEntries) ops = some (m, (applies (fun _ => none) ops).2) ∧
      (∀ k, LookupBucketFor info m k ≠ .FatalCorruptHashTables) ∧
      (∀ k, lookup info m k = (applies (fun _ => none) ops).1 k) ∧
      ∃ ks : List K, ks.Nodup ∧ ks.length = m.NumEntries ∧
        ∀ k, k ∈ ks ↔ (applies (fun _ => none) ops).1 k ≠ none := by
  have hvalid : Valid info (init InitNumEntries : DenseMap K V) :=
    valid_initBuckets info (sized_getMinBucketToReserveForEntries hinit)
  obtain ⟨m, hrun, h, hsame⟩ := hvalid.performs_same ops hkeep
    (fun k => hvalid.lookup_none.mpr (not_holds_initBuckets _ k)) hfew hops
  refine ⟨m, hrun, h.not_corrupt, hsame, keys m, h.nodup_keys, h.length_keys, fun k => ?_⟩
  rw [mem_keys, ← hsame k, ne_eq, h.lookup_none, not_forall_not]

theorem a_table_is_a_map_nats :
    ∃ m, performs (⟨id, fun _ => false⟩ : Info Nat Nat) (init 0)
        [.try_emplace 5 7, .assign 9 (· + 1), .try_emplace 5 8, .erase 9] =
          some (m, [true, true, false, true]) ∧ lookup ⟨id, fun _ => false⟩ m 5 = some 7 := by
  obtain ⟨m, hrun, -, hsame, -⟩ := a_table_is_a_map (⟨id, fun _ => false⟩ : Info Nat Nat)
    (fun _ => rfl) (Nat.zero_le _) [.try_emplace 5 7, .assign 9 (· + 1), .try_emplace 5 8, .erase 9]
    (fun _ => few_applies (by decide)) (by simp)
  exact ⟨m, hrun, hsame 5⟩

end objc_runtime.dense_map
