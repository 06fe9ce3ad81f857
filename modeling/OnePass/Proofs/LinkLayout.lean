import OnePass.Link.Image
import OnePass.Proofs.Arena
import OnePass.Proofs.Section

/-! # The layout of an image

Sections are laid out one behind the other. As long as the sections with the room for their alignments
fit the address space, no sum wraps, so that offsets rise and no two sections meet. -/
namespace OnePass

open Elf List

namespace Link

/-- The room that sections need at most: their sizes and what their alignments may skip. -/
def span (arena : Arena) (ids : List SectionId) : Nat :=
  (ids.map fun id => (arena.get id).size + (arena.get id).align.toNat).sum

@[simp] theorem span_nil (arena : Arena) : span arena [] = 0 := rfl

@[simp] theorem span_cons (arena : Arena) (id : SectionId) (ids : List SectionId) :
    span arena (id :: ids) = (arena.get id).size + (arena.get id).align.toNat + span arena ids := by
  simp [span]

theorem span_le (arena : Arena) (ids : List SectionId) (bound : Nat)
    (each : ∀ id ∈ ids, (arena.get id).size + (arena.get id).align.toNat ≤ bound) :
    span arena ids ≤ ids.length * bound := by
  induction ids with
  | nil => simp
  | cons id ids ih =>
    have first := each id mem_cons_self
    have rest := ih fun other member => each other (mem_cons_of_mem _ member)
    rw [span_cons,length_cons,Nat.succ_mul]
    omega

/-- What a layout of sections behind `size` bytes is. -/
structure Laid (arena : Arena) (size : UInt64) (ids : List SectionId) (offsets : List UInt64)
    (stop : UInt64) : Prop where
  length : offsets.length = ids.length
  inside : ∀ p ∈ ids.zip offsets, size.toNat ≤ p.2.toNat ∧ p.2.toNat + (arena.get p.1).size ≤ stop.toNat
  ordered : (ids.zip offsets).Pairwise fun p q => p.2.toNat + (arena.get p.1).size ≤ q.2.toNat
  forward : size.toNat ≤ stop.toNat
  bounded : stop.toNat ≤ size.toNat + span arena ids

theorem layout_laid (arena : Arena) (size : UInt64) (ids : List SectionId)
    (room : size.toNat + span arena ids < 2 ^ 64) :
    Laid arena size ids (layout arena size ids).1 (layout arena size ids).2 := by
  induction ids generalizing size with
  | nil => exact ⟨rfl,by simp,by simp,by simp [layout],by simp [layout]⟩
  | cons id ids ih =>
    rw [span_cons] at room
    have alignment : (max (arena.get id).align 1).toNat ≤ (arena.get id).align.toNat + 1 := by
      rw [show max (arena.get id).align 1 = if (arena.get id).align ≤ 1 then 1 else (arena.get id).align from rfl]
      split
      · simp
      · omega
    have start := alignUp_bounds size (max (arena.get id).align 1) (by omega)
    have fits : (alignUp size (max (arena.get id).align 1)).toNat ≤
        size.toNat + (arena.get id).align.toNat := by omega
    have stop : (alignUp size (max (arena.get id).align 1) + UInt64.ofNat (arena.get id).size).toNat =
        (alignUp size (max (arena.get id).align 1)).toNat + (arena.get id).size := by
      rw [UInt64.toNat_add,UInt64.toNat_ofNat',Nat.mod_eq_of_lt (by omega : (arena.get id).size < 2 ^ 64)]
      exact Nat.mod_eq_of_lt (by omega)
    have rest := ih (alignUp size (max (arena.get id).align 1) + UInt64.ofNat (arena.get id).size)
      (by omega)
    simp only [layout]
    refine ⟨by simp [rest.length],?_,?_,?_,?_⟩
    · intro p member
      rw [zip_cons_cons,mem_cons] at member
      rcases member with rfl | member
      · have := rest.forward
        simp only
        omega
      · have := rest.inside p member
        omega
    · rw [zip_cons_cons,pairwise_cons]
      refine ⟨fun q member => ?_,rest.ordered⟩
      have := (rest.inside q member).1
      simp only
      omega
    · have := rest.forward
      omega
    · have := rest.bounded
      rw [span_cons]
      omega

end Link
end OnePass
