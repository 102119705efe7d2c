-- Layout strings that are too long for their bitmap (objc-layout.mm). The overflow check of set_bits
-- looks at the bit where the loop stopped, which is the end of the bitmap only if the run starts
-- there or before: a run that starts farther out is dropped.
import ObjcRuntime.Layouts

namespace objc_runtime.layouts

variable {b : layout_bitmap} {which count bit i : Nat} {layout_string : List Byte}

/-- The word is in a scan of the string, which is read from a bit on. -/
def Reference : List Byte → Nat → Nat → Prop
  | [], _, _ => False
  | c :: layout_string, bit, i =>
    c ≠ 0 ∧ (bit + skipOf c ≤ i ∧ i < bit + skipOf c + scanOf c ∨
      Reference layout_string (bit + skipOf c + scanOf c) i)

/-- The string is refused, or every reference of it is recorded. -/
def RecordsOrStops (layout_string : List Byte) (b : layout_bitmap) : Prop :=
  decompress_layout layout_string 0 b = none ∨
    ∃ b', decompress_layout layout_string 0 b = some b' ∧
      ∀ i, Reference layout_string 0 i → i < b'.bitCount ∧ b'.bit i = true

/-- The first run that ends after the first `n` bits starts in them or at their end. -/
def OverflowSeen (n : Nat) : List Byte → Nat → Prop
  | [], _ => True
  | c :: layout_string, bit =>
    c = 0 ∨ if scanOf c = 0 ∨ bit + skipOf c + scanOf c ≤ n then
      OverflowSeen n layout_string (bit + skipOf c + scanOf c)
    else bit + skipOf c ≤ n

theorem set_bits_loop_stops (hwhich : which ≤ b.bitCount) (hover : b.bitCount < which + count) :
    (set_bits_loop count b which).2 = b.bitCount := by
  induction count generalizing b which with
  | zero => omega
  | succ count ih =>
    rw [set_bits_loop]
    split_ifs with hlt
    · exact ih (b := b.set which) hlt (by
        have hcount : (b.set which).bitCount = b.bitCount := rfl
        omega)
    · dsimp only
      omega

/-- A run over the end of the bitmap is seen. -/
theorem set_bits_over (hwhich : which ≤ b.bitCount) (hover : b.bitCount < which + count) :
    set_bits b which count = none := by
  unfold set_bits
  dsimp only
  rw [set_bits_loop_stops hwhich hover]
  exact if_pos ⟨rfl, hover⟩

/-- A run behind the end is not. -/
theorem set_bits_beyond (hwhich : b.bitCount < which) : set_bits b which count = some b := by
  have hloop : set_bits_loop count b which = (b, which) := by
    cases count with
    | zero => rfl
    | succ count => rw [set_bits_loop, if_neg (by omega)]
  unfold set_bits
  rw [hloop]
  exact if_neg (by omega)

theorem decompress_beyond (h : b.bitCount < bit) : decompress_layout layout_string bit b = some b := by
  induction layout_string generalizing bit with
  | nil => rfl
  | cons c layout_string ih =>
    rw [decompress_layout]
    split_ifs with hc
    · rfl
    · rw [set_bits_beyond (by omega)]
      exact ih (by omega)

theorem set_bits_bitCount {b' : layout_bitmap} (h : set_bits b which count = some b') :
    b'.bitCount = b.bitCount := by
  have hloop : ∀ (count : Nat) (b : layout_bitmap) (which : Nat),
      (set_bits_loop count b which).1.bitCount = b.bitCount := by
    intro count
    induction count with
    | zero => exact fun _ _ => rfl
    | succ count ih =>
      intro b which
      rw [set_bits_loop]
      split_ifs
      · exact ih (b.set which) (which + 1)
      · rfl
  unfold set_bits at h
  dsimp only at h
  split_ifs at h
  rw [← Option.some.inj h]
  exact hloop count b which

theorem decompress_bitCount {b' : layout_bitmap}
    (h : decompress_layout layout_string bit b = some b') : b'.bitCount = b.bitCount := by
  induction layout_string generalizing b bit with
  | nil => rw [← Option.some.inj h]
  | cons c layout_string ih =>
    rw [decompress_layout] at h
    split_ifs at h with hc
    · rw [← Option.some.inj h]
    · obtain ⟨b₁, hset, hrest⟩ := Option.bind_eq_some_iff.mp h
      rw [ih hrest, set_bits_bitCount hset]

theorem decompress_of_seen (h : OverflowSeen b.bitCount layout_string bit) :
    decompress_layout layout_string bit b = none ∨
      ∃ b', decompress_layout layout_string bit b = some b' ∧
        (∀ i, b.bit i = true → b'.bit i = true) ∧
        ∀ i, Reference layout_string bit i → i < b'.bitCount ∧ b'.bit i = true := by
  induction layout_string generalizing b bit with
  | nil => exact .inr ⟨b, rfl, fun _ hi => hi, fun _ hi => hi.elim⟩
  | cons c layout_string ih =>
    rw [decompress_layout]
    split_ifs with hc
    · exact .inr ⟨b, rfl, fun _ hi => hi, fun _ hi => absurd hc hi.1⟩
    have hseen := h.resolve_left hc
    by_cases hfit : scanOf c = 0 ∨ bit + skipOf c + scanOf c ≤ b.bitCount
    · rw [if_pos hfit] at hseen
      obtain ⟨b₁, hset, hcount, -, hbits⟩ := set_bits_spec hfit
      rw [← hcount] at hseen
      rw [hset, Option.bind_some]
      refine (ih hseen).imp_right fun hdecompressed => ?_
      obtain ⟨b', hrest, hkeeps, hrecords⟩ := hdecompressed
      refine ⟨b', hrest, fun i hi => ?_, fun i hi => ?_⟩
      · exact hkeeps i (by rw [hbits, hi, Bool.true_or])
      · rcases hi.2 with hrun | hlater
        · have hset₁ : b₁.bit i = true := by simp [hbits, hrun]
          refine ⟨?_, hkeeps i hset₁⟩
          obtain ⟨hlow, hhigh⟩ := hrun
          have hcount' := decompress_bitCount hrest
          omega
        · exact hrecords i hlater
    · rw [if_neg hfit] at hseen
      refine .inl ?_
      rw [set_bits_over hseen (by omega)]
      rfl

/-- The run that is not seen has a reference behind the end of the bitmap. -/
theorem decompress_of_unseen (h : ¬ OverflowSeen b.bitCount layout_string bit) :
    ∃ b', decompress_layout layout_string bit b = some b' ∧
      ∃ i, Reference layout_string bit i ∧ b'.bitCount ≤ i := by
  induction layout_string generalizing b bit with
  | nil => exact absurd trivial h
  | cons c layout_string ih =>
    rw [OverflowSeen, not_or] at h
    obtain ⟨hc, hunseen⟩ := h
    rw [decompress_layout, if_neg hc]
    by_cases hfit : scanOf c = 0 ∨ bit + skipOf c + scanOf c ≤ b.bitCount
    · rw [if_pos hfit] at hunseen
      obtain ⟨b₁, hset, hcount, -⟩ := set_bits_spec hfit
      rw [← hcount] at hunseen
      obtain ⟨b', hrest, i, hreference, hi⟩ := ih hunseen
      exact ⟨b', by rw [hset]; exact hrest, i, ⟨hc, .inr hreference⟩, hi⟩
    · rw [if_neg hfit] at hunseen
      have hbeyond : b.bitCount < bit + skipOf c := Nat.not_le.mp hunseen
      refine ⟨b, ?_, bit + skipOf c, ⟨hc, .inl ⟨Nat.le_refl _, by omega⟩⟩, hbeyond.le⟩
      rw [set_bits_beyond hbeyond]
      exact decompress_beyond (by omega)

/-- A string is refused or recorded as a whole exactly when its first run that does not fit starts
at the end of the bitmap or before. -/
theorem records_or_stops_iff (layout_string : List Byte) (b : layout_bitmap) :
    RecordsOrStops layout_string b ↔ OverflowSeen b.bitCount layout_string 0 := by
  constructor
  · intro h
    by_contra hunseen
    obtain ⟨b', hb', i, hreference, hi⟩ := decompress_of_unseen hunseen
    rcases h with hnone | ⟨b'', hb'', hrecords⟩
    · rw [hb'] at hnone
      cases hnone
    · rw [hb', Option.some.injEq] at hb''
      subst hb''
      exact absurd (hrecords i hreference).1 (by omega)
  · intro h
    exact (decompress_of_seen h).imp_right fun ⟨b', hb', _, hrecords⟩ => ⟨b', hb', hrecords⟩

/-- Two words, and a string with a reference to the sixth. -/
theorem reference_is_dropped :
    decompress_layout [0x51] 0 (layout_bitmap_create_empty 8 16 false) =
        some (layout_bitmap_create_empty 8 16 false) ∧
      Reference [0x51] 0 5 ∧ ¬ RecordsOrStops [0x51] (layout_bitmap_create_empty 8 16 false) := by
  have hdropped : decompress_layout [0x51] 0 (layout_bitmap_create_empty 8 16 false) =
      some (layout_bitmap_create_empty 8 16 false) := rfl
  have hreference : Reference [0x51] 0 5 := ⟨by decide, .inl (by decide)⟩
  refine ⟨hdropped, hreference, ?_⟩
  rintro (hnone | ⟨b', hb', hrecords⟩)
  · rw [hdropped] at hnone
    cases hnone
  · rw [hdropped, Option.some.injEq] at hb'
    subst hb'
    exact absurd (hrecords 5 hreference).1 (by decide)

end objc_runtime.layouts
