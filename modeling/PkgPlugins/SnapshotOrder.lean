/-
The order of the snapshots (`snapshot.c`): when
`snapshot_compare_by_creation_date_desc` is the comparison `dlist_sort` expects.

The difference of two dates is an `uint64_t`, but the comparison returns an
`int`: what arrives is the difference modulo `2^32`, in two's complement. Its
sign is that of the dates if and only if this remainder is neither 0 nor above
`INT_MAX` (`compare_pos_iff`); on the other side there is no difference, only
the constant `-1`.
-/
import PkgPlugins.Purge

set_option autoImplicit false

namespace PkgPlugins.Purge

open PkgPlugins.Dlist

/-! ## The comparison -/

/-- The seconds from `a` to `b` pass for a positive `int`. -/
def Fits (a b : snapshot_t) : Prop :=
  0 < (b.creation.toNat - a.creation.toNat) % 2 ^ 32
    ∧ (b.creation.toNat - a.creation.toNat) % 2 ^ 32 < 2 ^ 31

instance (a b : snapshot_t) : Decidable (Fits a b) := inferInstanceAs (Decidable (_ ∧ _))

theorem toInt32_eq (x : UInt64) : toInt32 x = (x.toNat : ℤ).bmod (2 ^ 32) := by
  rw [toInt32, Int32.toInt, UInt32.toBitVec_toInt32, BitVec.toInt_eq_toNat_bmod,
    UInt32.toNat_toBitVec, UInt64.toNat_toUInt32, Int.natCast_mod, Int.emod_bmod]

theorem toInt32_pos_iff (x : UInt64) :
    0 < toInt32 x ↔ 0 < x.toNat % 2 ^ 32 ∧ x.toNat % 2 ^ 32 < 2 ^ 31 := by
  rw [toInt32_eq, Int.bmod_eq_emod]
  split <;> omega

variable {a b : snapshot_t}

theorem compare_newer (h : newer a b) : snapshot_compare_by_creation_date_desc a b = -1 := by
  rw [snapshot_compare_by_creation_date_desc, if_neg (UInt64.not_le.mpr h)]
  rfl

theorem compare_same (h : a.creation = b.creation) :
    snapshot_compare_by_creation_date_desc a b = 0 := by
  rw [snapshot_compare_by_creation_date_desc, h, if_pos (UInt64.le_refl _), UInt64.sub_self]
  rfl

/-- The comparison sees that `b` is newer. -/
theorem compare_pos_iff :
    0 < snapshot_compare_by_creation_date_desc a b ↔ newer b a ∧ Fits a b := by
  by_cases hlt : newer b a
  · have hle : a.creation ≤ b.creation := UInt64.le_of_lt hlt
    rw [snapshot_compare_by_creation_date_desc, if_pos hle, toInt32_pos_iff,
      UInt64.toNat_sub_of_le _ _ hle]
    exact (and_iff_right hlt).symm
  · refine iff_of_false (fun hpos => hlt ?_) (fun h => hlt h.1)
    exact exchanges_sound a b (decide_eq_true hpos)

/-! ## A descending order -/

/-- The comparison orders the snapshots of `s` by their dates, the newest first. -/
structure Orders (s : Set snapshot_t) : Prop where
  pos_iff : ∀ a ∈ s, ∀ b ∈ s,
    (0 < snapshot_compare_by_creation_date_desc a b ↔ a.creation < b.creation)
  zero_iff : ∀ a ∈ s, ∀ b ∈ s,
    (snapshot_compare_by_creation_date_desc a b = 0 ↔ a.creation = b.creation)
  neg_iff : ∀ a ∈ s, ∀ b ∈ s,
    (snapshot_compare_by_creation_date_desc a b < 0 ↔ b.creation < a.creation)
  antisymm : ∀ a ∈ s, ∀ b ∈ s, (snapshot_compare_by_creation_date_desc a b).sign
    = -(snapshot_compare_by_creation_date_desc b a).sign
  trans : ∀ a ∈ s, ∀ b ∈ s, ∀ c ∈ s, 0 ≤ snapshot_compare_by_creation_date_desc a b →
    0 ≤ snapshot_compare_by_creation_date_desc b c →
    0 ≤ snapshot_compare_by_creation_date_desc a c
  sorts : ∀ (list : DList snapshot_t) (l : List snapshot_t), WellFormed list l →
    (∀ a ∈ l, a ∈ s) → ∃ list' l',
      dlist_sort list snapshot_compare_by_creation_date_desc = .ok list'
        ∧ WellFormed list' l' ∧ l'.Perm l
        ∧ l'.Pairwise (fun a b => b.creation ≤ a.creation)

theorem creation_cases (a b : snapshot_t) : newer b a ∨ a.creation = b.creation ∨ newer a b := by
  simp only [newer, UInt64.lt_iff_toNat_lt, ← UInt64.toNat_inj]
  omega

/-- The sign of an answer, where the comparison sees what is newer. -/
theorem compare_cases (hfits : newer b a → Fits a b) :
    newer b a ∧ 0 < snapshot_compare_by_creation_date_desc a b
      ∨ a.creation = b.creation ∧ snapshot_compare_by_creation_date_desc a b = 0
      ∨ newer a b ∧ snapshot_compare_by_creation_date_desc a b = -1 := by
  rcases creation_cases a b with h | h | h
  · exact Or.inl ⟨h, compare_pos_iff.mpr ⟨h, hfits h⟩⟩
  · exact Or.inr (Or.inl ⟨h, compare_same h⟩)
  · exact Or.inr (Or.inr ⟨h, compare_newer h⟩)

/-- `dlist_sort` leaves no older snapshot before a newer one. -/
theorem dlist_sort_ordered {list : DList snapshot_t} {l : List snapshot_t} (h : WellFormed list l)
    (hcompares : Compares l) :
    ∃ list', dlist_sort list snapshot_compare_by_creation_date_desc = .ok list'
      ∧ WellFormed list' (sortedNewestFirst l)
      ∧ (sortedNewestFirst l).Pairwise (fun a b => ¬ newer b a) := by
  obtain ⟨ns, hns, rfl⟩ := h
  obtain ⟨list', ns', hsort, -, -, hdata, hrep⟩ :=
    dlist_sort_spec hns snapshot_compare_by_creation_date_desc
  exact ⟨list', hsort, ⟨ns', hrep, hdata⟩, (sortedNewestFirst_ordered_iff _).mpr hcompares⟩

/-- **The comparison is a descending order of some snapshots if and only if the
seconds from any of them to a newer one pass for a positive `int`.** -/
theorem orders_iff (s : Set snapshot_t) :
    Orders s ↔ ∀ a ∈ s, ∀ b ∈ s, a.creation < b.creation → Fits a b := by
  constructor
  · intro h a ha b hb hlt
    exact (compare_pos_iff.mp ((h.pos_iff a ha b hb).mpr hlt)).2
  · intro hfits
    have hcases : ∀ a ∈ s, ∀ b ∈ s, _ := fun a ha b hb => compare_cases (hfits a ha b hb)
    simp only [newer, UInt64.lt_iff_toNat_lt, ← UInt64.toNat_inj] at hcases
    refine ⟨?_, ?_, ?_, ?_, ?_, ?_⟩
    · intro a ha b hb
      rw [UInt64.lt_iff_toNat_lt]
      have := hcases a ha b hb
      omega
    · intro a ha b hb
      rw [← UInt64.toNat_inj]
      have := hcases a ha b hb
      omega
    · intro a ha b hb
      rw [UInt64.lt_iff_toNat_lt]
      have := hcases a ha b hb
      omega
    · intro a ha b hb
      -- one of the two answers is positive, or both are 0
      rcases hcases a ha b hb with ⟨hab, hpos⟩ | ⟨hab, hzero⟩ | ⟨hab, hneg⟩
      · rw [Int.sign_eq_one_of_pos hpos, compare_newer (UInt64.lt_iff_toNat_lt.mpr hab)]
        rfl
      · rw [hzero, compare_same (UInt64.toNat_inj.mp hab.symm)]
        rfl
      · have hpos : 0 < snapshot_compare_by_creation_date_desc b a := by
          have := hcases b hb a ha
          omega
        rw [Int.sign_eq_one_of_pos hpos, hneg]
        rfl
    · intro a ha b hb c hc hab hbc
      have := hcases a ha b hb
      have := hcases b hb c hc
      have := hcases a ha c hc
      omega
    · intro list l hl hs
      have hcompares : Compares l := by
        refine List.pairwise_of_forall_mem_list (fun a ha b hb hnewer => ?_)
        exact decide_eq_true (compare_pos_iff.mpr ⟨hnewer, hfits a (hs a ha) b (hs b hb) hnewer⟩)
      obtain ⟨list', hsort, hwf, hordered⟩ := dlist_sort_ordered hl hcompares
      refine ⟨list', _, hsort, hwf, sortedNewestFirst_perm l, hordered.imp (fun {a b} h => ?_)⟩
      exact UInt64.not_lt.mp h

/-- Of two snapshots `2^31` seconds apart the newer one comes out as the older, and
two that are `2^32` seconds apart come out as simultaneous. -/
theorem orders_not_far :
    snapshot_compare_by_creation_date_desc ⟨"a", 0, 1, 1⟩ ⟨"b", 2147483648, 1, 1⟩ = -2147483648
      ∧ snapshot_compare_by_creation_date_desc ⟨"a", 0, 1, 1⟩ ⟨"c", 4294967296, 1, 1⟩ = 0
      ∧ ¬ Orders {⟨"a", 0, 1, 1⟩, ⟨"b", 2147483648, 1, 1⟩, ⟨"c", 4294967296, 1, 1⟩} := by
  refine ⟨by decide, by decide, fun h => ?_⟩
  have hpos := (h.pos_iff ⟨"a", 0, 1, 1⟩ (by simp) ⟨"b", 2147483648, 1, 1⟩ (by simp)).mpr
    (by decide)
  exact absurd hpos (by decide)

end PkgPlugins.Purge
