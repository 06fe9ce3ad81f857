import OnePass.Elf.StringPool
import OnePass.Proofs.Bytes

/-! # Strings with a final zero

A string that stands in some bytes is read back up to its zero, whatever follows. Every string that goes
into a pool stands at its offset in the pool's bytes, also when it is only the end of another one. -/
namespace OnePass

open List hiding count

variable {sorted strings : List Bytes}

def StringAt (data : Array UInt8) (offset : Nat) (text : Bytes) : Prop := BytesAt data offset (text ++ [0])

namespace StringAt

theorem bound (at_ : StringAt data offset text) : offset + text.length < data.size := by
  have room := BytesAt.bound at_ (by simp)
  simp at room
  omega

theorem tail (at_ : StringAt data offset (b :: text)) : StringAt data (offset + 1) text :=
  (BytesAt.append_iff.mp (show BytesAt data offset ([b] ++ (text ++ [0])) from at_)).2

theorem append (at_ : StringAt data offset text) (more : Array UInt8) : StringAt (data ++ more) offset text :=
  BytesAt.append at_ more

theorem of_parts (front : Array UInt8) (text : Bytes) : StringAt (front ++ (text ++ [0]).toArray) front.size text := by
  have parts := BytesAt.of_parts front #[] (text ++ [0])
  rwa [Array.append_empty] at parts

theorem untilZero_eq (at_ : StringAt data offset text) (free : (0 : UInt8) ∉ text)
    (room : text.length < count) : untilZero data count offset = text := by
  induction text generalizing offset count with
  | nil =>
    obtain ⟨count,rfl⟩ : ∃ n, count = n + 1 := ⟨count - 1,by simp at room; omega⟩
    have zero : data[offset]? = some 0 := at_ 0 (by simp)
    simp [untilZero,zero]
  | cons b rest ih =>
    obtain ⟨count,rfl⟩ : ∃ n, count = n + 1 := ⟨count - 1,by simp at room; omega⟩
    have byte : data[offset]? = some b := at_ 0 (by simp)
    rw [mem_cons,not_or] at free
    rw [untilZero,byte]
    simp only [beq_iff_eq]
    rw [if_neg (Ne.symm free.1),ih at_.tail free.2 (by simpa using room)]

end StringAt

namespace Elf.StringPool

/-! ## Sorting -/

theorem mem_insert : other ∈ insert text sorted ↔ other = text ∨ other ∈ sorted := by
  induction sorted with
  | nil => simp [insert]
  | cons first rest ih =>
    rw [insert]
    split
    next same =>
      obtain rfl : text = first := by simpa using same
      simp
    next =>
      split
      next => simp
      next =>
        rw [mem_cons,mem_cons,ih]
        exact or_left_comm

def room (strings : List Bytes) : Nat := (strings.map fun text => text.length + 1).sum

@[simp] theorem room_nil : room [] = 0 := rfl

@[simp] theorem room_cons (text : Bytes) (rest : List Bytes) : room (text :: rest) = text.length + 1 + room rest := by
  simp [room]

theorem room_insert (text : Bytes) (sorted : List Bytes) :
    room (insert text sorted) ≤ text.length + 1 + room sorted := by
  induction sorted with
  | nil => simp [insert]
  | cons first rest ih =>
    rw [insert]
    split
    · simp only [room_cons]
      omega
    · split
      · simp
      · simp only [room_cons]
        omega

theorem mem_sorted : text ∈ strings.foldl (fun sorted text => insert text.reverse sorted) sorted ↔
      text.reverse ∈ strings ∨ text ∈ sorted := by
  induction strings generalizing sorted with
  | nil => simp
  | cons first rest ih =>
    rw [foldl_cons,ih,mem_insert,mem_cons,reverse_eq_iff,or_assoc]
    exact or_left_comm

theorem room_sorted (strings sorted : List Bytes) :
    room (strings.foldl (fun sorted text => insert text.reverse sorted) sorted) ≤ room strings + room sorted := by
  induction strings generalizing sorted with
  | nil => simp
  | cons first rest ih =>
    have added := room_insert first.reverse sorted
    have rest := ih (insert first.reverse sorted)
    rw [foldl_cons,room_cons]
    rw [length_reverse] at added
    omega

/-! ## Writing -/

/-- The strings of a pool stand where its offsets say, and the latest one at its end. -/
structure Stored (pool : Pool) : Prop where
  zero : pool.bytes[0]? = some 0
  ending : ∃ front : Array UInt8, pool.bytes = front ++ (pool.latest.reverse ++ [0]).toArray
  strings : ∀ text offset, (text,offset) ∈ pool.offsets → StringAt pool.bytes offset text

theorem Stored.empty : Stored {} := ⟨rfl,⟨#[],rfl⟩,by simp⟩

theorem Stored.write (stored : Stored pool) (reversed : Bytes) : Stored (write pool reversed) := by
  rw [StringPool.write]
  split
  next shared =>
    obtain ⟨more,eq⟩ := isPrefixOf_iff_prefix.mp shared
    obtain ⟨front,bytes⟩ := stored.ending
    refine ⟨stored.zero,⟨front,bytes⟩,?_⟩
    intro text offset member
    rcases mem_cons.mp member with same | old
    · -- The string ends the latest one, which ends the bytes.
      cases same
      have split : pool.bytes = (front ++ more.reverse.toArray) ++ (reversed.reverse ++ [0]).toArray := by
        rw [bytes,← eq]
        simp
      have start : pool.bytes.size - reversed.reverse.length - 1 = (front ++ more.reverse.toArray).size := by
        rw [split]
        simp only [Array.size_append,size_toArray,length_append,length_cons,length_nil]
        omega
      rw [start,split]
      exact StringAt.of_parts _ _
    · exact stored.strings text offset old
  next =>
    have bound := (Array.getElem?_eq_some_iff.mp stored.zero).1
    refine ⟨?_,⟨pool.bytes,rfl⟩,?_⟩
    · rw [Array.getElem?_append_left bound]
      exact stored.zero
    · intro text offset member
      rcases mem_cons.mp member with same | old
      · cases same
        exact StringAt.of_parts _ _
      · exact (stored.strings text offset old).append _

theorem Stored.foldl (stored : Stored pool) (strings : List Bytes) : Stored (strings.foldl StringPool.write pool) := by
  induction strings generalizing pool with
  | nil => exact stored
  | cons text rest ih => exact ih (stored.write text)

theorem offsets_write (pool : Pool) (reversed : Bytes) :
    ∃ offset, (write pool reversed).offsets = (reversed.reverse,offset) :: pool.offsets := by
  rw [write]
  split <;> exact ⟨_,rfl⟩

theorem known_foldl (pool : Pool) (known : text.reverse ∈ strings ∨ ∃ offset, (text,offset) ∈ pool.offsets) :
    ∃ offset, (text,offset) ∈ (strings.foldl write pool).offsets := by
  induction strings generalizing pool with
  | nil => simpa using known
  | cons first rest ih =>
    apply ih
    obtain ⟨offset,eq⟩ := offsets_write pool first
    rcases known with member | ⟨old,member⟩
    · rcases mem_cons.mp member with same | later
      · refine Or.inr ⟨offset,?_⟩
        rw [eq,← same,reverse_reverse]
        exact mem_cons_self
      · exact Or.inl later
    · refine Or.inr ⟨old,?_⟩
      rw [eq]
      exact mem_cons_of_mem _ member

theorem size_write (pool : Pool) (reversed : Bytes) :
    (write pool reversed).bytes.size ≤ pool.bytes.size + (reversed.length + 1) := by
  rw [write]
  split <;> simp

theorem size_foldl (strings : List Bytes) (pool : Pool) :
    (strings.foldl write pool).bytes.size ≤ pool.bytes.size + room strings := by
  induction strings generalizing pool with
  | nil => simp
  | cons first rest ih =>
    have added := size_write pool first
    have rest := ih (write pool first)
    rw [foldl_cons,room_cons]
    omega

theorem stored_ofStrings (strings : List Bytes) : Stored (ofStrings strings) := Stored.empty.foldl _

theorem stringAt_offset (member : text ∈ strings) :
    StringAt (ofStrings strings).bytes ((ofStrings strings).offset text) text := by
  have sorted : text.reverse ∈ strings.foldl (fun sorted text => insert text.reverse sorted) [] :=
    mem_sorted.mpr (Or.inl (by rwa [reverse_reverse]))
  obtain ⟨offset,known⟩ := known_foldl {} (Or.inl sorted)
  rw [Pool.offset]
  cases found : (ofStrings strings).offsets.lookup text with
  | none =>
    have absent := lookup_eq_none_iff.mp found _ known
    simp at absent
  | some first =>
    obtain ⟨before,behind,eq,_⟩ := lookup_eq_some_iff.mp found
    exact (stored_ofStrings strings).strings text first (by rw [eq]; simp)

theorem size_ofStrings (strings : List Bytes) : (ofStrings strings).bytes.size ≤ 1 + room strings := by
  have written := size_foldl (strings.foldl (fun sorted text => insert text.reverse sorted) []) {}
  have sorted := room_sorted strings []
  rw [room_nil] at sorted
  have one : ({} : Pool).bytes.size = 1 := rfl
  rw [ofStrings]
  omega

end Elf.StringPool
end OnePass
