import OnePass.Link.Image
import OnePass.Proofs.Bytes

/-! # Relocated fields

A relocation overwrites its own field and nothing else. A field that no other relocation touches
therefore holds what its relocation put there, and a byte that no field covers is as it was stored. -/
namespace OnePass.Link

open Elf RelocType Bytes
open Reloc

def Covers (rel : Relocation) (i : Nat) : Prop :=
  rel.offset.toNat ≤ i ∧ i < rel.offset.toNat + (relocWidth? rel.type).getD 0

theorem signed_low_half (value : Int64) (fits : fitsInt32 value = true) :
    (UInt32.ofNat (value.toUInt64.toNat % 256 ^ 4)).toInt32.toInt64 = value := by
  apply Int64.toInt_inj.mp
  have bounds : -2147483648 ≤ value.toInt ∧ value.toInt ≤ 2147483647 := by
    simpa [fitsInt32,Int64.le_iff_toInt_le] using fits
  have whole : value.toInt = Int.bmod value.toUInt64.toNat (2 ^ 64) := by
    rw [← Int64.toInt_toBitVec,BitVec.toInt_eq_toNat_bmod]
    rfl
  have low : (UInt32.ofNat (value.toUInt64.toNat % 256 ^ 4)).toInt32.toInt64.toInt =
      Int.bmod (value.toUInt64.toNat % 2 ^ 32) (2 ^ 32) := by
    simp
  rw [low]
  rw [whole] at bounds ⊢
  simp only [Int.bmod] at bounds ⊢
  omega

theorem distance_ok (ok : distance target addend place = .ok field) :
    field.length = 4 ∧ (UInt32.ofNat (toNatLE field)).toInt32.toInt64 =
      (target + addend.toUInt64 - place).toInt64 := by
  unfold distance at ok
  simp only at ok
  split at ok
  next fits =>
    cases ok
    refine ⟨by simp,?_⟩
    rw [toNatLE_ofNatLE]
    exact signed_low_half _ fits
  next => cases ok

/-- What the bytes of a field say, by the type of its relocation. -/
def Encodes (type : RelocType) (place target : UInt64) (addend : Int64) (got : Option UInt64)
    (field : Bytes) : Prop :=
  match type with
  | .none => True
  | .abs64 | .abs32 => toNatLE field = (target + addend.toUInt64).toNat
  | .abs32Signed =>
    (UInt32.ofNat (toNatLE field)).toInt32.toInt64 = (target + addend.toUInt64).toInt64
  | .pc32 | .plt32 =>
    (UInt32.ofNat (toNatLE field)).toInt32.toInt64 = (target + addend.toUInt64 - place).toInt64
  | .gotPcRel | .gotPcRelX | .rexGotPcRelX => ∃ entry, got = some entry ∧
    (UInt32.ofNat (toNatLE field)).toInt32.toInt64 = (entry + addend.toUInt64 - place).toInt64

theorem fieldBytes_ok (ok : fieldBytes type place target addend got = .ok field) :
    field.length = type.width ∧ Encodes type place target addend got field := by
  cases type with
  | none =>
    cases ok
    exact ⟨rfl,trivial⟩
  | abs64 =>
    cases ok
    exact ⟨by simp [width],by simp [Encodes]⟩
  | pc32 | plt32 => exact distance_ok ok
  | gotPcRel | gotPcRelX | rexGotPcRelX =>
    cases got with
    | none => cases ok
    | some entry => exact ⟨(distance_ok ok).1,entry,rfl,(distance_ok ok).2⟩
  | abs32 =>
    simp only [fieldBytes] at ok
    split at ok
    next fits =>
      cases ok
      refine ⟨by simp [width],?_⟩
      simp only [Encodes,toNatLE_ofNatLE]
      apply Nat.mod_eq_of_lt
      have := UInt64.le_iff_toNat_le.mp fits
      simp at this ⊢
      omega
    next => cases ok
  | abs32Signed =>
    simp only [fieldBytes] at ok
    split at ok
    next fits =>
      cases ok
      refine ⟨by simp [width],?_⟩
      simp only [Encodes,toNatLE_ofNatLE]
      exact signed_low_half _ fits
    next => cases ok

/-! ## Applying relocations -/

variable {rel : Relocation}

theorem applyOne_ok (ok : applyOne arena plan start contents rel = .ok out) :
    ∃ type field, ofCode? rel.type = some type ∧
      rel.offset.toNat + type.width ≤ contents.size ∧ field.length = type.width ∧
      Encodes type (start + rel.offset) (plan.target rel) rel.addend (plan.gotPlace? rel.symbol.toNat) field ∧
      out = overwrite contents rel.offset.toNat field := by
  unfold applyOne at ok
  simp only at ok
  split at ok
  next => cases ok
  next inside =>
    split at ok
    next field patched =>
      cases ok
      unfold Reloc.patched at patched
      split at patched
      next => cases patched
      next type known =>
        split at patched
        next => cases patched
        next room =>
          obtain ⟨length,holds⟩ := fieldBytes_ok patched
          exact ⟨type,field,known,by omega,length,holds,rfl⟩
    next => cases ok

variable (ok : applyAll arena plan start contents rels = .ok out)

include ok

theorem applyAll_size : out.size = contents.size := by
  induction rels generalizing contents with
  | nil =>
    cases ok
    rfl
  | cons rel rest ih =>
    simp only [applyAll,bind,Except.bind] at ok
    split at ok
    next => cases ok
    next middle first =>
      obtain ⟨_,_,_,_,_,_,rfl⟩ := applyOne_ok first
      rw [ih ok,size_overwrite]

end OnePass.Link
