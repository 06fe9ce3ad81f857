import Mathlib.Algebra.Order.Ring.Nat
import OnePass.Text.Bytes

/-! # Laws of byte strings

Overwriting changes exactly the bytes it names, and a little-endian field reads back what was last
written over it. Every table and every patch of code rests on these two facts. -/
namespace OnePass

open List

/-! ## Overwriting -/

@[simp] theorem size_overwrite (data : Array UInt8) (offset : Nat) (bytes : Bytes) :
    (overwrite data offset bytes).size = data.size := by
  induction bytes generalizing data offset with
  | nil => rfl
  | cons b rest ih => simp [overwrite,ih]

theorem overwrite_frame (data : Array UInt8) (offset i : Nat) (bytes : Bytes)
    (outside : i < offset ∨ offset + bytes.length ≤ i) : (overwrite data offset bytes)[i]? = data[i]? := by
  induction bytes generalizing data offset with
  | nil => rfl
  | cons b rest ih =>
    simp only [length_cons] at outside
    rw [overwrite,ih _ _ (by omega)]
    exact Array.getElem?_setIfInBounds_ne (by omega)

theorem overwrite_lane (data : Array UInt8) (offset lane : Nat) (bytes : Bytes)
    (room : offset + lane < data.size) (bound : lane < bytes.length) :
    (overwrite data offset bytes)[offset + lane]? = bytes[lane]? := by
  induction bytes generalizing data offset lane with
  | nil => simp at bound
  | cons b rest ih =>
    rw [overwrite]
    cases lane with
    | zero =>
      rw [overwrite_frame _ _ _ _ (Or.inl (by omega))]
      exact Array.getElem?_setIfInBounds_self_of_lt (by omega)
    | succ lane =>
      have next := ih (data.setIfInBounds offset b) (offset + 1) lane
        (by simp only [Array.size_setIfInBounds]; omega) (by simpa using bound)
      rw [show offset + (lane + 1) = offset + 1 + lane by omega,next]
      rfl

/-! ## Slices -/

theorem getElem?_extract_toList (data : Array UInt8) (offset width i : Nat) :
    (data.extract offset (offset + width)).toList[i]? = if i < width then data[offset + i]? else none := by
  rw [Array.getElem?_toList,Array.getElem?_extract]
  by_cases h : i < width
  · by_cases inside : offset + i < data.size
    · rw [if_pos (by omega),if_pos h]
    · rw [if_neg (by omega),if_pos h,Array.getElem?_eq_none (by omega)]
  · rw [if_neg (by omega),if_neg h]

theorem extract_congr (data other : Array UInt8) (offset shift width : Nat)
    (same : ∀ i < width, data[offset + i]? = other[shift + i]?) :
    (data.extract offset (offset + width)).toList = (other.extract shift (shift + width)).toList := by
  apply ext_getElem?
  intro i
  rw [getElem?_extract_toList,getElem?_extract_toList]
  by_cases h : i < width
  · rw [if_pos h,if_pos h,same i h]
  · rw [if_neg h,if_neg h]

/-! ## Bytes at an offset -/

def BytesAt (data : Array UInt8) (offset : Nat) (bytes : Bytes) : Prop :=
  ∀ i < bytes.length, data[offset + i]? = bytes[i]?

namespace BytesAt

theorem bound (at_ : BytesAt data offset bytes) (nonempty : bytes ≠ []) : offset + bytes.length ≤ data.size := by
  have positive := length_pos_iff.mpr nonempty
  have last := at_ (bytes.length - 1) (by omega)
  rw [getElem?_eq_getElem (by omega)] at last
  have := (Array.getElem?_eq_some_iff.mp last).1
  omega

theorem nil (data : Array UInt8) (offset : Nat) : BytesAt data offset [] := by simp [BytesAt]

theorem append_iff : BytesAt data offset (first ++ second) ↔
    BytesAt data offset first ∧ BytesAt data (offset + first.length) second := by
  constructor
  · intro at_
    refine ⟨fun i inside => ?_,fun i inside => ?_⟩
    · rw [at_ i (by rw [length_append]; omega),getElem?_append_left inside]
    · rw [add_assoc,at_ (first.length + i) (by rw [length_append]; omega),
        getElem?_append_right (Nat.le_add_right _ _),Nat.add_sub_cancel_left]
  · rintro ⟨left,right⟩ i inside
    rw [length_append] at inside
    by_cases before : i < first.length
    · rw [left i before,getElem?_append_left before]
    · have byte := right (i - first.length) (by omega)
      rw [getElem?_append_right (by omega),← byte]
      congr 1
      omega

theorem append (at_ : BytesAt data offset bytes) (more : Array UInt8) : BytesAt (data ++ more) offset bytes := by
  intro i inside
  have byte := at_ i inside
  rw [getElem?_eq_getElem inside] at byte
  rw [Array.getElem?_append_left (Array.getElem?_eq_some_iff.mp byte).1]
  exact at_ i inside

theorem of_parts (front behind : Array UInt8) (bytes : Bytes) :
    BytesAt (front ++ bytes.toArray ++ behind) front.size bytes := by
  apply append
  intro i _
  rw [Array.getElem?_append_right (Nat.le_add_right _ _),Nat.add_sub_cancel_left,getElem?_toArray]

theorem overwrite_same (room : offset + bytes.length ≤ data.size) :
    BytesAt (overwrite data offset bytes) offset bytes :=
  fun i inside => overwrite_lane _ _ _ _ (by omega) inside

theorem overwrite_other (old : BytesAt data offset bytes)
    (apart : offset + bytes.length ≤ at_ ∨ at_ + new.length ≤ offset) :
    BytesAt (overwrite data at_ new) offset bytes := by
  intro i inside
  rw [overwrite_frame _ _ _ _ (by omega)]
  exact old i inside

variable (at_ : BytesAt data offset bytes)

include at_

theorem extract : (data.extract offset (offset + bytes.length)).toList = bytes := by
  apply ext_getElem?
  intro i
  rw [getElem?_extract_toList]
  by_cases h : i < bytes.length
  · rw [if_pos h,at_ i h]
  · rw [if_neg h,getElem?_eq_none (by omega)]

theorem readLE_eq : readLE data offset bytes.length = Bytes.toNatLE bytes := by
  rw [readLE,at_.extract]

theorem slice (lead width : Nat) : BytesAt data (offset + lead) ((bytes.drop lead).take width) := by
  intro i inside
  rw [length_take,length_drop] at inside
  rw [getElem?_take_of_lt (by omega),getElem?_drop,add_assoc]
  exact at_ (lead + i) (by omega)

theorem readLE_slice (length : bytes.length = n) (low : offset ≤ place) (high : place + width ≤ offset + n) :
    readLE data place width = Bytes.toNatLE ((bytes.drop (place - offset)).take width) := by
  have field := (at_.slice (place - offset) width).readLE_eq
  rwa [length_take,length_drop,Nat.min_eq_left (by omega),Nat.add_sub_cancel' low] at field

end BytesAt

/-! ## Little-endian fields -/

theorem readLE_congr (data other : Array UInt8) (offset shift width : Nat)
    (same : ∀ i < width, data[offset + i]? = other[shift + i]?) :
    readLE data offset width = readLE other shift width := by
  rw [readLE,readLE,extract_congr data other offset shift width same]

theorem readLE_within (same : ∀ i < n, data[offset + i]? = other[offset + i]?) (low : offset ≤ place)
    (high : place + width ≤ offset + n) : readLE data place width = readLE other place width := by
  refine readLE_congr _ _ _ _ _ fun i below => ?_
  have := same (place - offset + i) (by omega)
  rwa [← Nat.add_assoc,Nat.add_sub_cancel' low] at this

theorem readLE_overwrite_frame (data : Array UInt8) (offset at_ width : Nat) (bytes : Bytes)
    (apart : at_ + width ≤ offset ∨ offset + bytes.length ≤ at_) :
    readLE (overwrite data offset bytes) at_ width = readLE data at_ width :=
  readLE_congr _ _ _ _ _ fun i h => overwrite_frame _ _ _ _ (by omega)

/-! ## Records of one width -/

theorem flatMap_lane {α β : Type} (f : α → List β) (width : Nat) (items : List α)
    (each : ∀ a ∈ items, (f a).length = width) (k i : Nat) (a : α) (at_ : items[k]? = some a)
    (inside : i < width) : (items.flatMap f)[width * k + i]? = (f a)[i]? := by
  induction items generalizing k with
  | nil => simp at at_
  | cons first rest ih =>
    have length := each first mem_cons_self
    rw [flatMap_cons]
    cases k with
    | zero =>
      obtain rfl : first = a := by simpa using at_
      rw [mul_zero,zero_add,getElem?_append_left (by omega)]
    | succ k =>
      rw [getElem?_append_right (by rw [Nat.mul_succ]; omega),length,
        ← ih (fun other member => each other (mem_cons_of_mem _ member)) k (by simpa using at_)]
      congr 1
      rw [Nat.mul_succ]
      omega

theorem length_flatMap_width {α β : Type} (f : α → List β) (width : Nat) (items : List α)
    (each : ∀ a ∈ items, (f a).length = width) : (items.flatMap f).length = width * items.length := by
  induction items with
  | nil => rfl
  | cons first rest ih =>
    rw [flatMap_cons,length_append,each first mem_cons_self,
      ih fun other member => each other (mem_cons_of_mem _ member),length_cons,Nat.mul_succ]
    omega

theorem BytesAt.item {α : Type} {f : α → Bytes} {items : List α}
    (at_ : BytesAt data offset (items.flatMap f)) (each : ∀ a ∈ items, (f a).length = width) {a : α}
    (found : items[k]? = some a) : BytesAt data (offset + width * k) (f a) := by
  have member := List.mem_of_getElem? found
  have bound := (List.getElem?_eq_some_iff.mp found).1
  have whole : width * k + width ≤ width * items.length := Nat.mul_le_mul_left width bound
  intro i inside
  rw [each a member] at inside
  rw [add_assoc,at_ (width * k + i) (by rw [length_flatMap_width f width items each]; omega)]
  exact flatMap_lane f width items each k i a found inside

theorem BytesAt.toArray (bytes : Bytes) : BytesAt bytes.toArray 0 bytes := by
  intro i _
  rw [zero_add,getElem?_toArray]

/-- Records that stand one behind the other are read back one by one. -/
theorem BytesAt.records {α β : Type} {f : α → Bytes} {items : List α} {decode : Nat → β} {view : α → β}
    (at_ : BytesAt data offset (items.flatMap f)) (each : ∀ a ∈ items, (f a).length = width)
    (reads : ∀ a place, BytesAt data place (f a) → decode place = view a) :
    (range items.length).map (fun i => decode (offset + i * width)) = items.map view := by
  apply ext_getElem?
  intro i
  rw [getElem?_map,getElem?_map]
  by_cases below : i < items.length
  · rw [getElem?_range below,getElem?_eq_getElem below,Option.map_some,mul_comm,
      reads _ _ (at_.item each (getElem?_eq_getElem below)),Option.map_some]
  · rw [getElem?_eq_none (by simpa using below),getElem?_eq_none (by simpa using below)]
    rfl

namespace Bytes

theorem toNatLE_ofNatLE (width n : Nat) : toNatLE (ofNatLE width n) = n % 256 ^ width := by
  induction width generalizing n with
  | zero => simp [ofNatLE,toNatLE,Nat.mod_one]
  | succ width ih =>
    have byte : (UInt8.ofNat n).toNat = n % 256 := by simp
    rw [ofNatLE,toNatLE,ih,byte,Nat.pow_succ,Nat.mul_comm (256 ^ width) 256,Nat.mod_mul]

@[simp] theorem toNatLE_ofUInt64 (n : UInt64) : toNatLE (ofUInt64 n) = n.toNat := by
  rw [ofUInt64,toNatLE_ofNatLE]
  simp

@[simp] theorem toNatLE_ofUInt32 (n : UInt32) : toNatLE (ofUInt32 n) = n.toNat := by
  rw [ofUInt32,toNatLE_ofNatLE]
  simp

@[simp] theorem toNatLE_ofUInt16 (n : UInt16) : toNatLE (ofUInt16 n) = n.toNat := by
  rw [ofUInt16,toNatLE_ofNatLE]
  simp

@[simp] theorem toNatLE_ofInt64 (n : Int64) : toNatLE (ofInt64 n) = n.toUInt64.toNat := toNatLE_ofUInt64 _

@[simp] theorem length_ofUInt64 (n : UInt64) : (ofUInt64 n).length = 8 := length_ofNatLE 8 _
@[simp] theorem length_ofUInt32 (n : UInt32) : (ofUInt32 n).length = 4 := length_ofNatLE 4 _
@[simp] theorem length_ofUInt16 (n : UInt16) : (ofUInt16 n).length = 2 := length_ofNatLE 2 _
@[simp] theorem length_ofInt64 (n : Int64) : (ofInt64 n).length = 8 := length_ofUInt64 _
@[simp] theorem length_zeros (n : Nat) : (zeros n).length = n := length_replicate

theorem toNatLE_append_zeros (bytes : Bytes) (zeros : Nat) :
    toNatLE (bytes ++ replicate zeros 0) = toNatLE bytes := by
  induction bytes with
  | nil =>
    induction zeros with
    | zero => rfl
    | succ zeros ih => simpa [replicate_succ,toNatLE] using ih
  | cons b rest ih => simp [toNatLE,ih]

theorem readLE_append_zeros (data : Array UInt8) (zeros offset width : Nat) :
    readLE (data ++ Array.replicate zeros 0) offset width = readLE data offset width := by
  have bytes : ((data ++ Array.replicate zeros 0).extract offset (offset + width)).toList =
      (data.extract offset (offset + width)).toList ++
        replicate (min width (data.size + zeros - offset) - min width (data.size - offset)) 0 := by
    apply ext_getElem?
    intro i
    rw [getElem?_extract_toList,Array.getElem?_append,getElem?_append,getElem?_extract_toList,Array.length_toList,
      Array.size_extract,Array.getElem?_replicate,getElem?_replicate]
    grind
  rw [readLE,bytes,toNatLE_append_zeros,readLE]

end Bytes
end OnePass
