import OnePass.Proofs.Section

/-! # The store of a section

Room is taken in powers of two and filled with zeros. Whatever is done to a section with contents, the store
holds its logical bytes and zeros behind them, so the logical bytes alone say what later operations find. -/
namespace OnePass.Elf.Section

variable {sec : Section}

inductive Op where
  | realloc (need : Nat)
  | reserve (more : Nat)
  | extend (more : Nat)
  | grow (more : Nat)
  | align (align : UInt64)
  | append (bytes : Bytes)
  | clear
  | write (offset : Nat) (bytes : Bytes)
  deriving DecidableEq, Repr

namespace Op

/-- The section after an operation. Growth may be refused, and nothing is written behind the logical end. -/
def apply (sec : Section) : Op → Section
  | realloc need => sec.realloc need
  | reserve more => sec.reserve more
  | extend more => (sec.extend more).2
  | grow more => ((sec.grow? more).map (·.2)).getD sec
  | align a => (sec.alignTo a).2
  | append bytes => sec.append bytes
  | clear => sec.clear
  | write offset bytes => if offset + bytes.length ≤ sec.size then sec.patch offset bytes else sec

/-- The operations that make room where the section is one that stores its bytes. -/
def isRoom : Op → Bool
  | realloc _ | append _ | clear | write _ _ => false
  | _ => true

/-- The end that an operation asks for is a size. -/
def fits (sec : Section) : Op → Bool
  | reserve more | extend more => sec.size + more < 2 ^ 64
  | _ => true

/-- The logical size after an operation that only makes room. -/
def sizeAfter (sec : Section) : Op → Nat
  | extend more => sec.size + more
  | grow more => if sec.size + more ≤ sec.limit then sec.size + more else sec.size
  | align a => max sec.size (alignUp (UInt64.ofNat sec.size) a).toNat
  | _ => sec.size

/-- The logical bytes after an operation: what it writes, and zeros where the section only got longer. -/
def bytesAfter (sec : Section) : Op → Array UInt8
  | append bytes => sec.contents ++ bytes.toArray
  | clear => #[]
  | write offset bytes =>
    if offset + bytes.length ≤ sec.size then overwrite sec.contents offset bytes else sec.contents
  | op => sec.contents ++ Array.replicate (op.sizeAfter sec - sec.size) 0

end Op

/-- The store covers the logical bytes, has no room or a power of two, and is zero behind them. -/
structure Stored (sec : Section) : Prop extends Backed sec where
  capacity : sec.store.size = 0 ∨ ∃ k, sec.store.size = 2 ^ k
  clean : ∀ i < sec.store.size, sec.size ≤ i → sec.store[i]? = some 0

/-! ## Room -/

theorem doubled_power (fuel need : Nat) : ∀ k, ∃ m, doubled fuel (2 ^ k) need = 2 ^ m := by
  induction fuel with
  | zero => exact fun k => ⟨k,rfl⟩
  | succ fuel ih =>
    intro k
    rw [doubled]
    split
    · rw [← Nat.pow_succ']
      exact ih (k + 1)
    · exact ⟨k,rfl⟩

theorem capacityFor_power (power : current = 0 ∨ ∃ k, current = 2 ^ k) (need : Nat) :
    capacityFor current need = 0 ∨ ∃ k, capacityFor current need = 2 ^ k := by
  rw [capacityFor]
  split
  · exact power
  · right
    rcases power with rfl | ⟨k,rfl⟩
    · exact doubled_power need need 0
    · rw [Nat.max_eq_left Nat.one_le_two_pow]
      exact doubled_power need need k

theorem le_capacityFor (current need : Nat) : current ≤ capacityFor current need := by
  by_cases enough : need ≤ current
  · rw [capacityFor,if_pos enough]
  · exact (Nat.le_of_not_le enough).trans (capacityFor_le current need)

/-- Room is made for `need` bytes, and the logical end moves up inside it. -/
theorem Stored.widen (stored : Stored sec) {need size : Nat} (up : sec.size ≤ size)
    (inside : size ≤ capacityFor sec.store.size need) :
    Stored { sec.reserveTo need with size } ∧
      { sec.reserveTo need with size }.contents = sec.contents ++ Array.replicate (size - sec.size) 0 := by
  have more := le_capacityFor sec.store.size need
  have whole := stored.size_contents
  have zero i (behind : sec.size ≤ i) (room : i < capacityFor sec.store.size need) :
      (sec.store ++ Array.replicate (capacityFor sec.store.size need - sec.store.size) 0)[i]? = some 0 := by
    by_cases old : i < sec.store.size
    · rw [Array.getElem?_append_left old,stored.clean i old behind]
    · rw [Array.getElem?_append_right (by omega),Array.getElem?_replicate,if_pos (by omega)]
  have total : sec.store.size + (capacityFor sec.store.size need - sec.store.size) =
      capacityFor sec.store.size need := by omega
  simp only [reserveTo,realloc,stored.kind,Bool.false_eq_true,if_false]
  refine ⟨⟨⟨stored.kind,?_⟩,?_,fun i room behind => ?_⟩,?_⟩
  · simpa [total] using inside
  · simpa [total] using capacityFor_power stored.capacity need
  · simp only [Array.size_append,Array.size_replicate,total] at room
    exact zero i (up.trans behind) room
  · apply Array.ext_getElem?
    intro i
    have stock := stored.stored
    rw [getElem?_contents]
    dsimp only
    by_cases old : i < sec.size
    · rw [if_pos (by omega),Array.getElem?_append_left (by omega),Array.getElem?_append_left (by omega),
        getElem?_contents,if_pos old]
    · by_cases new : i < size
      · rw [if_pos new,zero i (by omega) (by omega),Array.getElem?_append_right (by omega),Array.getElem?_replicate,
          if_pos (by omega)]
      · rw [if_neg new,Array.getElem?_append_right (by omega),Array.getElem?_replicate,if_neg (by omega)]

/-! ## Writing -/

theorem contents_patch (stored : sec.size ≤ sec.store.size) (inside : offset + bytes.length ≤ sec.size) :
    (sec.patch offset bytes).contents = overwrite sec.contents offset bytes := by
  have whole : sec.contents.size = sec.size := by simp [contents,stored]
  apply Array.ext_getElem?
  intro i
  rw [getElem?_contents,size_patch]
  by_cases written : offset ≤ i ∧ i < offset + bytes.length
  · obtain ⟨lane,rfl⟩ := Nat.exists_eq_add_of_le written.1
    rw [if_pos (by omega),patch,overwrite_lane _ _ _ _ (by omega) (by omega),
      overwrite_lane _ _ _ _ (by omega) (by omega)]
  · rw [patch,overwrite_frame _ _ _ _ (by omega),overwrite_frame _ _ _ _ (by omega),getElem?_contents]

theorem Stored.patch (stored : Stored sec) (inside : offset + bytes.length ≤ sec.size) :
    Stored (sec.patch offset bytes) where
  toBacked := patch_backed stored.toBacked _ _
  capacity := by simpa [Section.patch] using stored.capacity
  clean i room behind := by
    simp only [Section.patch,size_overwrite] at room behind
    rw [Section.patch,overwrite_frame _ _ _ _ (by omega),stored.clean i room behind]

theorem Stored.append (stored : Stored sec) (bytes : Bytes) : Stored (sec.append bytes) :=
  (stored.widen (Nat.le_add_right _ _) (capacityFor_le _ _)).1.patch (Nat.le_refl _)

theorem Stored.clear (stored : Stored sec) : Stored sec.clear where
  kind := stored.kind
  stored := Nat.zero_le _
  capacity := by simpa [Section.clear] using stored.capacity
  clean i room _ := by
    simp only [Section.clear,Array.size_replicate] at room
    simp [Section.clear,room]

/-! ## Operations -/

theorem reserveTo_sized (sec : Section) (need : Nat) : sec.reserveTo need = { sec.reserveTo need with size := sec.size } := by
  rw [reserveTo]
  split <;> rfl

theorem reserveTo_zero (sec : Section) : sec.reserveTo 0 = sec := by
  simp [reserveTo,realloc,capacityFor]

/-- An operation that makes room moves the logical end inside of what it has reserved. -/
theorem Op.apply_room {op : Op} (room : op.isRoom = true) (fits : op.fits sec = true) : ∃ need,
    op.apply sec = { sec.reserveTo need with size := op.sizeAfter sec } ∧ sec.size ≤ op.sizeAfter sec ∧
      (op.sizeAfter sec = sec.size ∨ op.sizeAfter sec ≤ need) := by
  have same : sec = { sec.reserveTo 0 with size := sec.size } := by rw [reserveTo_zero]
  cases op with
  | reserve more => exact ⟨sec.endOf more,sec.reserveTo_sized _,Nat.le_refl _,.inl rfl⟩
  | extend more =>
    have stop : sec.endOf more = sec.size + more := Nat.mod_eq_of_lt (of_decide_eq_true fits)
    refine ⟨sec.endOf more,?_,Nat.le_add_right _ _,.inr (Nat.le_of_eq stop.symm)⟩
    rw [sizeAfter,← stop]
    rfl
  | grow more =>
    simp only [apply,grow?,sizeAfter]
    split
    · exact ⟨sec.size + more,rfl,Nat.le_add_right _ _,.inr (Nat.le_refl _)⟩
    · exact ⟨0,same,Nat.le_refl _,.inl rfl⟩
  | align a =>
    simp only [apply,alignTo,sizeAfter]
    split
    · next up =>
      rw [Nat.max_eq_right (Nat.le_of_lt up)]
      exact ⟨_,rfl,Nat.le_of_lt up,.inr (Nat.le_refl _)⟩
    · next low =>
      rw [Nat.max_eq_left (Nat.le_of_not_lt low)]
      exact ⟨0,same,Nat.le_refl _,.inl rfl⟩
  | realloc | append | clear | write => cases room

/-- One operation keeps the store in order, and the logical bytes are what it makes of them. -/
theorem Stored.apply (stored : Stored sec) {op : Op} (fits : op.fits sec = true) :
    Stored (op.apply sec) ∧ (op.apply sec).contents = op.bytesAfter sec := by
  have wide (room : op.isRoom = true) : Stored (op.apply sec) ∧
      (op.apply sec).contents = sec.contents ++ Array.replicate (op.sizeAfter sec - sec.size) 0 := by
    obtain ⟨need,shape,up,inside⟩ := op.apply_room room fits
    rw [shape]
    refine stored.widen up ?_
    rcases inside with same | inside
    · rw [same]
      exact stored.stored.trans (le_capacityFor _ _)
    · exact inside.trans (capacityFor_le _ _)
  cases op with
  | realloc need =>
    have wider := stored.widen (Nat.le_refl _) (stored.stored.trans (le_capacityFor _ need))
    rwa [← reserveTo_sized,reserveTo,if_neg (by simp [stored.kind])] at wider
  | append bytes => exact ⟨stored.append bytes,contents_append stored.toBacked bytes⟩
  | clear => exact ⟨stored.clear,by simp [Op.apply,Section.clear,contents,Op.bytesAfter]⟩
  | write offset bytes =>
    simp only [Op.apply,Op.bytesAfter]
    split
    · next inside => exact ⟨stored.patch inside,contents_patch stored.stored inside⟩
    · exact ⟨stored,rfl⟩
  | _ => exact wide rfl

end OnePass.Elf.Section
