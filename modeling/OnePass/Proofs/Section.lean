import OnePass.Elf.Section
import OnePass.Proofs.Bytes

/-! # Laws of sections

A section that is not only reserved room stores every byte up to its logical end. Growing keeps those
bytes, and appending puts new ones behind them. -/
namespace OnePass

open Array

/-! ## Alignment -/

theorem and_not_bounds (x m : BitVec w) : x.toNat ≤ (x &&& ~~~m).toNat + m.toNat ∧ (x &&& ~~~m).toNat ≤ x.toNat := by
  have disjoint : (x &&& m) &&& (x &&& ~~~m) = 0#w := by
    ext i h
    simp only [BitVec.getElem_and,BitVec.getElem_not]
    cases m[i] <;> simp
  have parts : (x &&& m) ||| (x &&& ~~~m) = x := by
    ext i h
    simp [← Bool.and_or_distrib_left]
  have sum := BitVec.toNat_add_of_and_eq_zero disjoint
  rw [BitVec.add_eq_or_of_and_eq_zero _ _ disjoint,parts] at sum
  have taken : (x &&& m).toNat ≤ m.toNat := by
    exact Nat.and_le_right
  omega

/-- Aligning goes forward by less than the alignment, whatever number that is. -/
theorem alignUp_bounds (value align : UInt64) (room : value.toNat + align.toNat ≤ 2 ^ 64) :
    value.toNat ≤ (alignUp value align).toNat ∧
      (alignUp value align).toNat ≤ value.toNat + (align.toNat - 1) := by
  unfold alignUp
  split
  next small => omega
  next large =>
    have positive : 1 < align.toNat := by
      rw [UInt64.le_iff_toNat_le] at large
      simpa using large
    have bounds := and_not_bounds (value + align - 1).toBitVec (align - 1).toBitVec
    have mask : (align - 1).toNat = align.toNat - 1 := by
      rw [UInt64.toNat_sub_of_le _ _ (by rw [UInt64.le_iff_toNat_le]; simp; omega)]
      rfl
    have last : (value + align - 1).toNat = value.toNat + (align.toNat - 1) := by
      simp only [UInt64.toNat_sub]
      simp
      omega
    have same : ((value + align - 1) &&& ~~~(align - 1)).toNat =
        ((value + align - 1).toBitVec &&& ~~~(align - 1).toBitVec).toNat := rfl
    simp only [UInt64.toNat_toBitVec] at bounds
    omega

namespace Elf.Section

theorem doubled_le (fuel capacity need : Nat) (enough : need ≤ capacity * 2 ^ fuel) :
    need ≤ doubled fuel capacity need := by
  induction fuel generalizing capacity with
  | zero => simpa [doubled] using enough
  | succ fuel ih =>
    rw [doubled]
    split
    next =>
      apply ih
      rwa [mul_comm 2,mul_assoc,mul_comm 2]
    next large => exact Nat.le_of_not_lt large

theorem capacityFor_le (current need : Nat) : need ≤ capacityFor current need := by
  rw [capacityFor]
  split
  next enough => exact enough
  next =>
    apply doubled_le
    have power : need < 2 ^ need := Nat.lt_two_pow_self
    have scale : 1 * 2 ^ need ≤ max current 1 * 2 ^ need := Nat.mul_le_mul_right _ (Nat.le_max_right _ _)
    omega

/-- Every byte up to the logical end is stored. -/
structure Backed (sec : Section) : Prop where
  kind : sec.isNobits = false
  stored : sec.size ≤ sec.store.size

variable {sec : Section} {offset size : Nat}

theorem Backed.size_contents (backed : Backed sec) : sec.contents.size = sec.size := by
  have := backed.stored
  simp [contents]
  omega

theorem getElem?_contents (i : Nat) : sec.contents[i]? = if i < sec.size then sec.store[i]? else none := by
  rw [contents,getElem?_extract]
  by_cases stored : i < sec.store.size
  · by_cases inside : i < sec.size
    · rw [if_pos (by omega),if_pos inside,zero_add]
    · rw [if_neg (by omega),if_neg inside]
  · rw [if_neg (by omega),getElem?_eq_none (by omega)]
    simp

theorem store_of_contents (at_ : BytesAt sec.contents offset bytes) : BytesAt sec.store offset bytes := by
  intro i inside
  have byte := at_ i inside
  rw [getElem?_contents] at byte
  split at byte
  · exact byte
  · rw [List.getElem?_eq_getElem inside] at byte
    cases byte

theorem resize_eq_of_kind (kind : sec.isNobits = false) (size : Nat) : sec.resize size = { sec with
      store := sec.store ++ replicate (capacityFor sec.store.size size - sec.store.size) 0, size } := by
  simp [resize,reserveTo,realloc,kind]

theorem resize_backed (kind : sec.isNobits = false) (size : Nat) : Backed (sec.resize size) := by
  have room := capacityFor_le sec.store.size size
  rw [resize_eq_of_kind kind]
  refine ⟨kind,?_⟩
  simp only [size_append,size_replicate]
  omega

theorem contents_resize (kind : sec.isNobits = false) (inside : i < sec.size) (stored : sec.size ≤ sec.store.size)
    (grows : sec.size ≤ size) : (sec.resize size).contents[i]? = sec.contents[i]? := by
  rw [resize_eq_of_kind kind,getElem?_contents,getElem?_contents,if_pos inside]
  simp only
  rw [if_pos (by omega),getElem?_append_left (by omega)]

@[simp] theorem size_append : (sec.append bytes).size = sec.size + bytes.length := rfl

theorem append_backed (backed : Backed sec) (bytes : Bytes) : Backed (sec.append bytes) := by
  have wide := resize_backed backed.kind (sec.size + bytes.length)
  refine ⟨wide.kind,?_⟩
  simpa [append,patch] using wide.stored

theorem contents_append (backed : Backed sec) (bytes : Bytes) :
    (sec.append bytes).contents = sec.contents ++ bytes.toArray := by
  have wide := resize_backed backed.kind (sec.size + bytes.length)
  have stored := wide.stored
  have size : (sec.resize (sec.size + bytes.length)).size = sec.size + bytes.length := rfl
  have whole := backed.size_contents
  apply ext_getElem?
  intro i
  rw [getElem?_contents,size_append,getElem?_append]
  simp only [append,patch]
  by_cases old : i < sec.size
  · rw [if_pos (by omega),if_pos (by omega),overwrite_frame _ _ _ _ (Or.inl old)]
    have kept := contents_resize backed.kind old backed.stored (Nat.le_add_right sec.size bytes.length)
    rwa [getElem?_contents,size,if_pos (by omega)] at kept
  · by_cases new : i < sec.size + bytes.length
    · have lane := overwrite_lane (sec.resize (sec.size + bytes.length)).store sec.size (i - sec.size) bytes
        (by omega) (by omega)
      rw [Nat.add_sub_cancel' (by omega)] at lane
      rw [if_pos new,if_neg (by omega),lane,whole,List.getElem?_toArray]
    · rw [if_neg new,if_neg (by omega),List.getElem?_toArray,List.getElem?_eq_none (by omega)]

theorem store_append (backed : Backed sec) (inside : i < sec.size) : (sec.append bytes).store[i]? = sec.store[i]? := by
  have grown : i < (sec.append bytes).size := Nat.lt_add_right _ inside
  have size := backed.size_contents
  have left : (sec.append bytes).contents[i]? = (sec.append bytes).store[i]? := by
    rw [getElem?_contents,if_pos grown]
  have right : sec.contents[i]? = sec.store[i]? := by
    rw [getElem?_contents,if_pos inside]
  rw [← left,← right,contents_append backed,getElem?_append_left (by omega)]

theorem append_eq (sec : Section) (bytes : Bytes) :
    ∃ store, sec.append bytes = { sec with store, size := sec.size + bytes.length } := by
  rw [append,resize,reserveTo]
  split <;> exact ⟨_,rfl⟩

section Patch

variable (sec : Section) (offset : Nat) (bytes : Bytes)

@[simp] theorem size_patch : (sec.patch offset bytes).size = sec.size := rfl
@[simp] theorem link_patch : (sec.patch offset bytes).link = sec.link := rfl
@[simp] theorem hash_patch : (sec.patch offset bytes).hash = sec.hash := rfl

end Patch

theorem patch_backed (backed : Backed sec) (offset : Nat) (bytes : Bytes) : Backed (sec.patch offset bytes) :=
  ⟨backed.kind,by simpa [patch] using backed.stored⟩

end Elf.Section
end OnePass
