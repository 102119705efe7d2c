-- Who holds what. Each claim that a system takes out is held in one place until it is given
-- back. The holdings of a hash map, and of a hash map of hash maps, are lists up to their order.
import Mathlib.Data.List.AList

namespace objc_runtime.holdings

/-! ## The holdings of a hash map -/

abbrev HashMap (κ β : Type*) := AList (fun _ : κ => β)

variable {κ β γ : Type*}

/-- What the values of a map hold. -/
def holdingsOf (f : β → List γ) (map : HashMap κ β) : List γ :=
  map.entries.flatMap fun entry => f entry.2

@[simp] theorem holdings_empty (f : β → List γ) : holdingsOf f (∅ : HashMap κ β) = [] := rfl

variable [DecidableEq κ]

/-- What the value of a key holds. -/
def holdingsAt (f : β → List γ) (map : HashMap κ β) (key : κ) : List γ :=
  (map.lookup key).elim [] f

theorem holdings_erase (f : β → List γ) (map : HashMap κ β) (key : κ) :
    (holdingsAt f map key ++ holdingsOf f (map.erase key)).Perm (holdingsOf f map) := by
  unfold holdingsAt holdingsOf
  cases hfind : map.lookup key with
  | none =>
    have hmem : key ∉ map.entries.keys := AList.lookup_eq_none.mp hfind
    have hsame : (map.erase key).entries = map.entries := List.kerase_of_notMem_keys hmem
    rw [hsame]
    exact .rfl
  | some value =>
    have hmem : key ∈ map.entries.keys := AList.lookup_isSome.mp (by rw [hfind]; rfl)
    obtain ⟨found, before, after, -, hentries, hrest⟩ := List.exists_of_kerase hmem
    have hvalue : found = value := by
      have hin : Sigma.mk key found ∈ map.entries := by rw [hentries]; simp
      have heq : map.lookup key = some found := AList.mem_lookup_iff.mpr hin
      rw [hfind] at heq
      exact (Option.some.inj heq).symm
    have hrest' : (map.erase key).entries = before ++ after := hrest
    rw [hrest', hentries, hvalue]
    simp only [Option.elim_some, List.flatMap_append, List.flatMap_cons, ← List.append_assoc]
    exact List.Perm.append_right _ List.perm_append_comm

theorem holdings_insert (f : β → List γ) (map : HashMap κ β) (key : κ) (value : β) :
    (holdingsAt f map key ++ holdingsOf f (map.insert key value)).Perm (f value ++ holdingsOf f map) := by
  have herase := holdings_erase f map key
  have hinsert : holdingsOf f (map.insert key value) = f value ++ holdingsOf f (map.erase key) := rfl
  rw [hinsert, ← List.append_assoc]
  refine (List.Perm.append_right _ List.perm_append_comm).trans ?_
  rw [List.append_assoc]
  exact herase.append_left _

/-- A value of the map holds no more than the map. -/
theorem mem_holdings {f : β → List γ} {map : HashMap κ β} {key : κ} {value : β} {c : γ}
    (hfind : map.lookup key = some value) (hc : c ∈ f value) : c ∈ holdingsOf f map :=
  List.mem_flatMap.mpr ⟨⟨key, value⟩, AList.mem_lookup_iff.mp hfind, hc⟩

/-- The entries of a map that satisfy a condition, inserted one by one. -/
theorem insert_all (p : β → Bool) (entries : List (Sigma fun _ : κ => β)) (map : HashMap κ β)
    (hnodup : (entries ++ map.entries).NodupKeys) :
    (entries.foldl (fun map entry => if p entry.2 then map.insert entry.1 entry.2 else map)
      map).entries.Perm (entries.filter (fun entry => p entry.2) ++ map.entries) := by
  induction entries generalizing map with
  | nil => exact .rfl
  | cons entry entries ih =>
    obtain ⟨hnew, hrest⟩ := List.nodupKeys_cons.mp hnodup
    rw [List.foldl_cons]
    by_cases hp : p entry.2 = true
    · have hfresh : entry.1 ∉ map := by
        intro h
        obtain ⟨found, hfound, hkey⟩ := List.mem_map.mp h
        exact hnew (List.mem_map.mpr ⟨found, List.mem_append_right entries hfound, hkey⟩)
      have hentries : (map.insert entry.1 entry.2).entries = entry :: map.entries :=
        AList.entries_insert_of_notMem hfresh
      have hmove : (entries ++ entry :: map.entries).Perm (entry :: (entries ++ map.entries)) :=
        List.perm_middle
      have hnodup' : (entries ++ (map.insert entry.1 entry.2).entries).NodupKeys := by
        rw [hentries]
        exact (List.perm_nodupKeys hmove).mpr hnodup
      rw [if_pos hp, List.filter_cons, if_pos hp]
      refine (ih _ hnodup').trans ?_
      rw [hentries]
      exact List.perm_middle
    · rw [if_neg hp, List.filter_cons, if_neg hp]
      exact ih map hrest

/-! ## Claims that are given back -/

/-- Each claim taken out is given back or held, and none is twice. -/
structure Balanced (taken given held : List γ) : Prop where
  distinct : taken.Nodup
  conserved : taken.Perm (given ++ held)

section step

variable {taken given held new back held' : List γ}

/-- What a step takes out, and what it gives back of that and of what was held. -/
theorem Balanced.step (h : Balanced taken given held) (hnew : (taken ++ new).Nodup)
    (hmove : (new ++ held).Perm (back ++ held')) :
    Balanced (taken ++ new) (given ++ back) held' where
  distinct := hnew
  conserved := by
    calc (taken ++ new).Perm (given ++ held ++ new) := h.conserved.append_right new
      _ = given ++ (held ++ new) := List.append_assoc _ _ _
      List.Perm _ (given ++ (new ++ held)) := List.perm_append_comm.append_left given
      List.Perm _ (given ++ (back ++ held')) := hmove.append_left given
      _ = given ++ back ++ held' := (List.append_assoc _ _ _).symm

/-- What is given back is not held. -/
theorem Balanced.given_not_held (h : Balanced taken given held) {c : γ} (hc : c ∈ given) :
    c ∉ held := by
  have hnodup : (given ++ held).Nodup := h.conserved.nodup_iff.mp h.distinct
  exact fun hheld => (List.nodup_append.mp hnodup).2.2 c hc c hheld rfl

theorem Balanced.given_nodup (h : Balanced taken given held) : given.Nodup :=
  (List.nodup_append.mp (h.conserved.nodup_iff.mp h.distinct)).1

theorem Balanced.held_nodup (h : Balanced taken given held) : held.Nodup :=
  (List.nodup_append.mp (h.conserved.nodup_iff.mp h.distinct)).2.1

/-- A step that keeps all it takes out gives back just the claims that are no longer held. -/
theorem Balanced.given_back [BEq γ] [LawfulBEq γ]
    (h : Balanced (taken ++ new) (given ++ back) held')
    (hheld : held.Nodup) (hmove : (new ++ held).Perm (back ++ held')) (hkept : new ⊆ held') :
    back.Perm (held.filter (· ∉ held')) := by
  have hback : back.Nodup := (List.nodup_append.mp h.given_nodup).2.1
  apply (List.perm_ext_iff_of_nodup hback (hheld.filter _)).mpr
  intro c
  simp only [List.mem_filter, decide_eq_true_eq]
  constructor
  · intro hc
    have hnot : c ∉ held' := h.given_not_held (List.mem_append_right _ hc)
    have hin : c ∈ new ++ held := hmove.mem_iff.mpr (List.mem_append_left _ hc)
    rcases List.mem_append.mp hin with hin | hin
    · exact absurd (hkept hin) hnot
    · exact ⟨hin, hnot⟩
  · rintro ⟨hc, hnot⟩
    have hin : c ∈ back ++ held' := hmove.mem_iff.mp (List.mem_append_right _ hc)
    exact (List.mem_append.mp hin).resolve_right hnot

end step

end objc_runtime.holdings
