import OnePass.Proofs.Arena
import OnePass.Proofs.Section
import OnePass.Proofs.StringPool
import OnePass.Proofs.Utf8

/-! # Chains of a hash table

The words of a hash table are determined by the buckets of the symbols: a head is the latest symbol of its
bucket, and a link the latest one before its own. -/
namespace OnePass.Elf

open Bytes

/-! ## Words of a section -/

namespace Section

variable {sec : Section}

theorem word_setWord_same (room : offset + 4 ≤ sec.store.size) (small : value < 2 ^ 32) :
    (sec.setWord offset value).word offset = value := by
  have field : BytesAt (overwrite sec.store offset (ofNatLE 4 value)) offset (ofNatLE 4 value) :=
    BytesAt.overwrite_same (by simpa using room)
  have read := field.readLE_eq
  have whole : value % 256 ^ 4 = value := Nat.mod_eq_of_lt small
  rw [length_ofNatLE,toNatLE_ofNatLE,whole] at read
  simpa only [word,setWord,patch] using read

theorem word_setWord_other (apart : offset + 4 ≤ at_ ∨ at_ + 4 ≤ offset) :
    (sec.setWord at_ value).word offset = sec.word offset := by
  simp only [word,setWord,patch]
  exact readLE_overwrite_frame _ _ _ _ _ (by rwa [length_ofNatLE])

@[simp] theorem size_setWord : (sec.setWord offset value).size = sec.size := rfl

@[simp] theorem store_size_setWord : (sec.setWord offset value).store.size = sec.store.size := by
  simp [setWord,patch]

theorem word_resized (sec : Section) (size at_ : Nat) : (sec.resize size).word at_ = sec.word at_ := by
  rw [resize,reserveTo]
  split
  · rfl
  · exact readLE_append_zeros _ _ _ _

end Section

/-! ## The latest of a kind -/

/-- The last number below `n` with a property, 0 when there is none. -/
def latest (p : Nat → Prop) [DecidablePred p] : Nat → Nat
  | 0 => 0
  | n + 1 => if p n then n else latest p n

section Latest

variable {p q : Nat → Prop} [DecidablePred p] [DecidablePred q]

theorem latest_congr (same : ∀ i < n, p i ↔ q i) : latest p n = latest q n := by
  induction n with
  | zero => rfl
  | succ n ih =>
    rw [latest,latest,ih fun i below => same i (Nat.lt_succ_of_lt below)]
    by_cases holds : p n
    · rw [if_pos holds,if_pos ((same n (Nat.lt_succ_self n)).mp holds)]
    · rw [if_neg holds,if_neg fun other => holds ((same n (Nat.lt_succ_self n)).mpr other)]

theorem latest_le : latest p n ≤ n := by
  induction n with
  | zero => exact Nat.le_refl 0
  | succ n ih =>
    rw [latest]
    split
    · exact Nat.le_succ n
    · exact Nat.le_succ_of_le ih

theorem latest_cases : (latest p n = 0 ∧ ∀ i, 0 < i → i < n → ¬p i) ∨
    (0 < latest p n ∧ latest p n < n ∧ p (latest p n)) := by
  induction n with
  | zero => exact Or.inl ⟨rfl,fun i _ below => absurd below (Nat.not_lt_zero i)⟩
  | succ n ih =>
    rw [latest]
    split
    next holds =>
      by_cases zero : n = 0
      · subst zero
        exact Or.inl ⟨rfl,by omega⟩
      · exact Or.inr ⟨by omega,by omega,holds⟩
    next absent =>
      rcases ih with ⟨eq,none⟩ | ⟨positive,below,holds⟩
      · refine Or.inl ⟨eq,fun i positive below => ?_⟩
        by_cases last : i = n
        · rwa [last]
        · exact none i positive (by omega)
      · exact Or.inr ⟨positive,by omega,holds⟩

end Latest

/-! ## Chained words -/

/-- The words of a hash table whose symbols have these buckets; a local symbol has none. -/
structure Chained (words : Nat → Nat) (key : Nat → Option Nat) (buckets count : Nat) : Prop where
  heads : ∀ b < buckets, words (2 + b) = latest (key · = some b) count
  links : ∀ i < count, ∀ b, key i = some b → words (2 + buckets + i) = latest (key · = some b) i

namespace Chained

variable (chained : Chained words key buckets count)

include chained

theorem congr (same : ∀ i < count, key' i = key i) (heads : ∀ b < buckets, words' (2 + b) = words (2 + b))
    (links : ∀ i < count, words' (2 + buckets + i) = words (2 + buckets + i)) : Chained words' key' buckets count := by
  refine ⟨fun b below => ?_,fun i below b found => ?_⟩
  · rw [heads b below,chained.heads b below]
    exact latest_congr fun i inside => by rw [same i inside]
  · rw [same i below] at found
    rw [links i below,chained.links i below b found]
    exact latest_congr fun j inside => by rw [same j (by omega)]

theorem pass (none : key count = none) (heads : ∀ b < buckets, words' (2 + b) = words (2 + b))
    (links : ∀ i < count, words' (2 + buckets + i) = words (2 + buckets + i)) :
    Chained words' key buckets (count + 1) := by
  refine ⟨fun b below => ?_,fun i inside b found => ?_⟩
  · rw [heads b below,chained.heads b below,latest,if_neg (by rw [none]; exact nofun)]
  · by_cases last : i = count
    · rw [last,none] at found
      cases found
    · have old : i < count := by omega
      rw [links i old,chained.links i old b found]

theorem enter (own : key count = some b) (inside : b < buckets) (head : words' (2 + b) = count)
    (heads : ∀ c < buckets, c ≠ b → words' (2 + c) = words (2 + c))
    (link : words' (2 + buckets + count) = words (2 + b))
    (links : ∀ i < count, words' (2 + buckets + i) = words (2 + buckets + i)) :
    Chained words' key buckets (count + 1) := by
  refine ⟨fun c below => ?_,fun i inside' c found => ?_⟩
  · rw [latest]
    by_cases same : c = b
    · rw [same,if_pos own,head]
    · rw [if_neg (by rw [own]; exact fun eq => same (Option.some.inj eq).symm),heads c below same,chained.heads c below]
  · by_cases last : i = count
    · obtain rfl : b = c := by
        rw [last,own] at found
        exact Option.some.inj found
      rw [last,link,chained.heads b inside]
    · have old : i < count := by omega
      rw [links i old,chained.links i old c found]

end Chained

namespace Arena

def bucket (arena : Arena) (table : SectionId) (buckets : Nat) (i : Nat) : Option Nat :=
  if (arena.symbol table i).isLocal then none
  else some ((hashName (ofString (arena.symbolName table i))).toNat % buckets)

variable {arena : Arena} {table hash : SectionId}

theorem bucket_of_name (name : String) (i : Nat) :
    arena.bucket table buckets i = some ((hashName (ofString name)).toNat % buckets) ∧
        arena.symbolName table i = name ↔
      (arena.symbol table i).isLocal = false ∧ arena.symbolName table i = name := by
  refine and_congr_left ?_
  rintro rfl
  simp [bucket]

theorem chase_step (name : String) (fuel i : Nat) : arena.chase table hash buckets name (fuel + 1) (i + 1) =
    if arena.symbolName table (i + 1) == name then i + 1
    else arena.chase table hash buckets name fuel ((arena.get hash).word ((2 + buckets + (i + 1)) * 4)) := rfl

/-- Following the chain of a bucket finds its latest symbol of a name. -/
theorem chase_latest (chained : Chained (fun k => (arena.get hash).word (k * 4)) (arena.bucket table buckets) buckets count)
    (name : String) (b n fuel : Nat) (below : n ≤ count) (enough : n ≤ fuel) :
    arena.chase table hash buckets name fuel (latest (arena.bucket table buckets · = some b) n) =
      latest (fun i => arena.bucket table buckets i = some b ∧ arena.symbolName table i = name) n := by
  induction n generalizing fuel with
  | zero => cases fuel <;> rfl
  | succ n ih =>
    by_cases own : arena.bucket table buckets n = some b
    · rw [latest,if_pos own,latest]
      cases n with
      | zero =>
        obtain ⟨fuel,rfl⟩ : ∃ m, fuel = m + 1 := ⟨fuel - 1,by omega⟩
        simp [chase,latest]
      | succ n =>
        obtain ⟨fuel,rfl⟩ : ∃ m, fuel = m + 1 := ⟨fuel - 1,by omega⟩
        rw [chase_step]
        by_cases named : arena.symbolName table (n + 1) = name
        · rw [if_pos (by simpa using named),if_pos ⟨own,named⟩]
        · rw [if_neg (by simpa using named),if_neg fun h => named h.2]
          rw [chained.links (n + 1) (by omega) b own]
          exact ih fuel (by omega) (by omega)
    · rw [latest,if_neg own,latest,if_neg fun h => own h.1]
      exact ih fuel (by omega) (by omega)

end Arena
end OnePass.Elf
