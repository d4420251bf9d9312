import GoblinStore.Common.Types

/-!
# Positional tiering

`computeLayout` splits an object's bytes by offset: RAM caches `[0, ramHeadBytes)`, the SSD
pool holds `[0, ssdBytes)` and the HDD pool `[ssdBytes, size)`. An object that fits in the RAM
head has no disk extent at all.
-/

namespace GoblinStore

/-- Byte spans of an object across the tiers. -/
structure ObjectLayout where
  size : Nat
  ramHeadBytes : Nat
  ssdBytes : Nat
  hddBytes : Nat
  deriving DecidableEq, Repr

/-- The layout of an object of this size. -/
def computeLayout (size : Nat) (tiers : TierSizes) (threeLayer : Bool) : ObjectLayout :=
  let ramHeadBytes := min size tiers.ramHead
  if size ≤ tiers.ramHead then ⟨size, ramHeadBytes, 0, 0⟩
  else if !threeLayer then ⟨size, ramHeadBytes, size, 0⟩
  else if size ≤ tiers.ssdPrefix then ⟨size, ramHeadBytes, size, 0⟩
  else ⟨size, ramHeadBytes, tiers.ssdPrefix, size - tiers.ssdPrefix⟩

/-- The pool extent that holds the last byte of the object, padded to the device block. -/
def ObjectLayout.ssdExtent (layout : ObjectLayout) : Nat :=
  if 0 < layout.hddBytes then layout.ssdBytes else alignUp layout.ssdBytes kDeviceBlock

variable {size : Nat} {tiers : TierSizes} {threeLayer : Bool}

@[simp] theorem compute_layout_size : (computeLayout size tiers threeLayer).size = size := by
  unfold computeLayout
  split_ifs <;> rfl

/-- An object that fits in the RAM head has no disk extent. -/
theorem compute_layout_ram_only (h : size ≤ tiers.ramHead) :
    computeLayout size tiers threeLayer = ⟨size, min size tiers.ramHead, 0, 0⟩ := by
  simp [computeLayout, h]

/-- A larger object is covered by its SSD and HDD extents; the SSD extent is nonempty, and it
is the aligned SSD prefix when there is an HDD tail. -/
theorem compute_layout_disk (h : tiers.ramHead < size) :
    (computeLayout size tiers threeLayer).ssdBytes +
        (computeLayout size tiers threeLayer).hddBytes = size ∧
      tiers.ramHead ≤ (computeLayout size tiers threeLayer).ssdBytes ∧
      (0 < (computeLayout size tiers threeLayer).hddBytes →
        threeLayer = true ∧ (computeLayout size tiers threeLayer).ssdBytes = tiers.ssdPrefix) := by
  have hle := tiers.ram_head_le
  unfold computeLayout
  rw [if_neg (by omega)]
  cases threeLayer with
  | false => simp; omega
  | true =>
      simp only [Bool.not_true, Bool.false_eq_true, if_false]
      split_ifs with hs
      · simp; omega
      · simp; omega

end GoblinStore
