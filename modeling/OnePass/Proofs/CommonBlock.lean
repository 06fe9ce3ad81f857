import OnePass.Proofs.TentativeStorage

/-! # The allocation of the common block

Every symbol of the common block gets room of its own at the end of the zeroed section: the symbols are placed one
behind the other, each at a multiple of its alignment, and the section takes the largest alignment. -/
namespace OnePass.Link

open Elf Elf.Arena SectionIndex

/-- A symbol of the common block. The null symbol is none, whatever its record says. -/
def IsCommon (arena : Arena) (i : Nat) : Prop :=
  i ∈ symbolIndexes arena ∧ (arena.symbol arena.symtab i).index = common

/-- The common block has room in the zeroed section. What the symbols ask for is what their records say before. -/
structure Allocated (before after : Arena) : Prop where
  kept : before.Kept after
  emptied : ∀ i, ¬IsCommon after i
  others : ∀ i, ¬IsCommon before i → after.symbol after.symtab i = before.symbol before.symtab i
  zeroed : ∀ i, IsCommon before i → after.byNumber? (after.symbol after.symtab i).index.toNat = some after.bss
  same : ∀ i, IsCommon before i → after.symbol after.symtab i =
    { before.symbol before.symtab i with
      index := (after.symbol after.symtab i).index, value := (after.symbol after.symtab i).value }
  aligned : ∀ i, IsCommon before i → (commonAlign before i).toNat ∣ (after.symbol after.symtab i).value.toNat
  behind : ∀ i, IsCommon before i → (before.get before.bss).size ≤ (after.symbol after.symtab i).value.toNat
  within : ∀ i, IsCommon before i →
    (after.symbol after.symtab i).value.toNat + (before.symbol before.symtab i).size.toNat ≤ (after.get after.bss).size
  apart : ∀ i j, IsCommon before i → IsCommon before j → i ≠ j →
    (after.symbol after.symtab i).value.toNat + (before.symbol before.symtab i).size.toNat ≤
        (after.symbol after.symtab j).value.toNat ∨
      (after.symbol after.symtab j).value.toNat + (before.symbol before.symtab j).size.toNat ≤
        (after.symbol after.symtab i).value.toNat
  finer : ∀ i, IsCommon before i → (commonAlign before i).toNat ∣ (after.get after.bss).align.toNat

/-! ## One symbol behind the other -/

/-- How far the allocation has come. What is placed lies between the old end of the zeroed section and the present one,
so that the next symbol lies behind it. -/
structure Serial (before now : Arena) (done : List Nat) : Prop where
  placed : CommonsPlaced before now done
  lies : ∀ i ∈ done, (before.symbol before.symtab i).index = common →
    (before.get before.bss).size ≤ (now.symbol before.symtab i).value.toNat ∧
      (now.symbol before.symtab i).value.toNat + (before.symbol before.symtab i).size.toNat ≤ (now.get before.bss).size
  apart : ∀ i ∈ done, ∀ j ∈ done, (before.symbol before.symtab i).index = common →
    (before.symbol before.symtab j).index = common → i ≠ j →
    (now.symbol before.symtab i).value.toNat + (before.symbol before.symtab i).size.toNat ≤
        (now.symbol before.symtab j).value.toNat ∨
      (now.symbol before.symtab j).value.toNat + (before.symbol before.symtab j).size.toNat ≤
        (now.symbol before.symtab i).value.toNat

theorem placeCommon_serial (sound : before.Sound) (bound : i < before.symbolCount before.symtab)
    (fresh : i ∉ done) (state : Serial before arena done) (run : placeCommon i arena = .ok ⟨⟩ after) : Serial before after (done ++ [i]) := by
  have placed := placeCommon_placed sound bound fresh state.placed run
  have cases := placeCommon_cases (state.placed.kept.sound sound) (by rwa [state.placed.kept.count]) run
  rw [state.placed.kept.symtab,state.placed.kept.bss,state.placed.waiting i fresh] at cases
  rcases cases with ⟨other,rfl⟩ | ⟨tentative,_,others,offset,found,new⟩
  · -- A symbol that is not common is none of those the state speaks of.
    have old {l : Nat} (member : l ∈ done ++ [i]) (common : (before.symbol before.symtab l).index = common) :
        l ∈ done :=
      (List.mem_append.mp member).resolve_right fun own => other (List.mem_singleton.mp own ▸ common)
    exact ⟨placed,fun l member common => state.lies l (old member common) common,
      fun l first m second common common' => state.apart l (old first common) m (old second common') common common'⟩
  · obtain ⟨behind,fits,_,room⟩ := roomFor?_eq found
    obtain ⟨_,grown,_,forward,zeroed⟩ := state.placed.kept.zeroed
    have value : (after.symbol before.symtab i).value.toNat = offset := by
      have limit := Linkable.limit_le (arena.get before.bss)
      rw [new]
      exact (UInt64.toNat_ofNat' ..).trans (Nat.mod_eq_of_lt (by omega))
    have size : (after.get before.bss).size = offset + (before.symbol before.symtab i).size.toNat := by
      rw [room,Section.wider_size]
    have old {l : Nat} (member : l ∈ done ++ [i]) (different : l ≠ i) : l ∈ done := by simpa [different] using member
    have least : (before.get before.bss).size ≤ offset := by
      rw [zeroed] at behind
      exact Nat.le_trans forward behind
    -- What was placed before ends where the section ended, and the new symbol begins there or later.
    have ahead {l : Nat} member (common : (before.symbol before.symtab l).index = common) :
        (arena.symbol before.symtab l).value.toNat + (before.symbol before.symtab l).size.toNat ≤ offset :=
      Nat.le_trans (state.lies l member common).2 behind
    refine ⟨placed,fun l member common => ?_,fun l first m second common common' different => ?_⟩
    · by_cases here : l = i
      · subst here
        rw [value,size]
        exact ⟨least,Nat.le_refl _⟩
      · have lies := state.lies l (old member here) common
        rw [others l here]
        omega
    · by_cases here : l = i
      · subst here
        rw [value,others m (Ne.symm different)]
        exact .inr (ahead (old second (Ne.symm different)) common')
      · by_cases there : m = i
        · subst there
          rw [value,others l here]
          exact .inl (ahead (old first here) common)
        · rw [others l here,others m there]
          exact state.apart l (old first here) m (old second there) common common' different

theorem placeCommons_serial (sound : before.Sound) (run : placeCommons before = .ok ⟨⟩ after) :
    Serial before after (symbolIndexes before) :=
  (placeCommons_keeps sound ⟨.refl before,by simp,by simp⟩
    (fun _ bound fresh _ step state => placeCommon_serial sound bound fresh state step) run).2

/-! ## The whole block -/

theorem powersAsked (powers : ∀ i, IsCommon before i → (before.symbol before.symtab i).value = 0 ∨
    ∃ k, (before.symbol before.symtab i).value.toNat = 2 ^ k) : PowersAsked before := by
  intro i member common
  rcases powers i ⟨member,common⟩ with zero | ⟨k,power⟩
  · exact ⟨0,by rw [commonAlign,zero]; rfl⟩
  · exact ⟨k,commonAlign_power power⟩

/-- Where all alignments are powers of two, placing the common block allocates it. -/
theorem common_block_allocated (sound : before.Sound)
    (numbered : before.byNumber? (before.get before.bss).number = some before.bss)
    (ordinary : (before.get before.bss).number ≠ SectionIndex.common.toNat)
    (power : ∃ k, (before.get before.bss).align.toNat = 2 ^ k)
    (powers : ∀ i, IsCommon before i → (before.symbol before.symtab i).value = 0 ∨
      ∃ k, (before.symbol before.symtab i).value.toNat = 2 ^ k)
    (run : placeCommons before = .ok ⟨⟩ after) : Allocated before after := by
  have asked := powersAsked powers
  have serial := placeCommons_serial sound run
  have kept := serial.placed.kept
  have number : (UInt16.ofNat (before.get before.bss).number).toNat = (before.get before.bss).number := by
    rw [UInt16.toNat_ofNat',Nat.mod_eq_of_lt sound.number.2]
  have placed {i : Nat} (common : IsCommon before i) : ∃ offset, after.symbol before.symtab i =
      { before.symbol before.symtab i with
        index := UInt16.ofNat (before.get before.bss).number, value := UInt64.ofNat offset } := by
    have record := serial.placed.placed i common.1
    simp only [PlacedRecord,if_pos common.2] at record
    obtain ⟨offset,_,_,eq⟩ := record
    exact ⟨offset,eq⟩
  have others (i : Nat) (other : ¬IsCommon before i) : after.symbol before.symtab i = before.symbol before.symtab i := by
    by_cases member : i ∈ symbolIndexes before
    · have record := serial.placed.placed i member
      rwa [PlacedRecord,if_neg fun common => other ⟨member,common⟩] at record
    · exact serial.placed.waiting i member
  constructor
  case kept => exact kept
  case emptied =>
    rintro i ⟨member,common⟩
    rw [symbolIndexes,kept.count,← symbolIndexes] at member
    rw [kept.symtab] at common
    by_cases first : IsCommon before i
    · obtain ⟨_,eq⟩ := placed first
      rw [eq] at common
      exact ordinary (number.symm.trans (congrArg UInt16.toNat common))
    · exact first ⟨member,others i first ▸ common⟩
  all_goals simp only [kept.symtab,kept.bss]
  case others => exact others
  case zeroed =>
    intro i common
    obtain ⟨_,eq⟩ := placed common
    rw [eq,number,byNumber?,kept.listed]
    exact numbered
  case same =>
    intro i common
    obtain ⟨_,eq⟩ := placed common
    rw [eq]
  case aligned =>
    intro i common
    obtain ⟨k,own⟩ := asked i common.1 common.2
    rw [own]
    exact (placeCommons_housed sound common.1 common.2 own run).aligned
  case behind => exact fun i common => (serial.lies i common.1 common.2).1
  case within => exact fun i common => (serial.lies i common.1 common.2).2
  case apart => exact fun i j first second => serial.apart i first.1 j second.1 first.2 second.2
  case finer =>
    intro i common
    obtain ⟨k,own⟩ := asked i common.1 common.2
    obtain ⟨m,whole⟩ := placeCommons_align (A := fun align => ∃ k, align.toNat = 2 ^ k) sound power
      (fun i member common _ power => power.elim fun k power =>
        (asked i member common).imp' (max k) fun _ => max_power power) run
    have finer := UInt64.le_iff_toNat_le.mp (placeCommons_housed sound common.1 common.2 own run).finer
    rw [own,whole] at finer ⊢
    exact Nat.pow_dvd_pow 2 ((Nat.pow_le_pow_iff_right Nat.one_lt_two).mp finer)

/-- Symbols of the common block with and without an alignment, and one that is not common. -/
def unevenBlock : List Mention :=
  [⟨"c",{ info := 0x11, index := common, value := 1, size := 3 }⟩,
    ⟨"x",{ info := 0x10, index := undef }⟩,
    ⟨"d",{ info := 0x11, index := common, value := 64, size := 8 }⟩,
    ⟨"e",{ info := 0x11, index := common, value := 0, size := 5 }⟩]

theorem common_block_allocated_uneven : let before := Arena.initial.mentionAll Arena.initial.symtab unevenBlock
    IsCommon before 1 ∧ IsCommon before 3 ∧ IsCommon before 4 ∧
      ∃ after, placeCommons before = .ok ⟨⟩ after ∧ Allocated before after := by
  intro before
  have merged := merged_initial.mentionAll (⟨by decide +kernel,by decide +kernel,by decide +kernel⟩ : Proper unevenBlock)
  -- One evaluation of the arena serves for all of them.
  obtain ⟨commons,numbered,ordinary,power,powers,runs⟩ :
      (IsCommon before 1 ∧ IsCommon before 3 ∧ IsCommon before 4) ∧
      before.byNumber? (before.get before.bss).number = some before.bss ∧
      (before.get before.bss).number ≠ SectionIndex.common.toNat ∧ (before.get before.bss).align.toNat = 2 ^ 5 ∧
      (∀ i ∈ symbolIndexes before, (before.symbol before.symtab i).index = SectionIndex.common →
        (before.symbol before.symtab i).value = 0 ∨ ∃ k < 7, (before.symbol before.symtab i).value.toNat = 2 ^ k) ∧
      succeeds (fun _ => true) (placeCommons before) = true := by
    unfold IsCommon
    decide +kernel
  change Merged Arena.initial Arena.initial.symtab 5 6 unevenBlock before at merged
  clear_value before
  have sound := standing_initial.toSound.framed merged.framed merged.tabled.named.records.stored
  obtain ⟨_,after,run,_⟩ := succeeds_iff.mp runs
  exact ⟨commons.1,commons.2.1,commons.2.2,after,run,common_block_allocated sound numbered ordinary ⟨5,power⟩
    (fun i common => (powers i common.1 common.2).imp_right (·.imp fun _ found => found.2)) run⟩

end OnePass.Link
