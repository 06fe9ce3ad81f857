import OnePass.Proofs.LinkUnresolved
import OnePass.Proofs.SessionArena

/-! # The alignment of objects in an image

An object gets room at a multiple of its alignment in its section, and a section lies at a multiple of its
own. Only tentative definitions raise the alignment of the section they are placed in. -/
namespace OnePass

open Elf SectionIndex UInt64 Arena List Section Link

variable {a b align offset size : UInt64} {sec id : SectionId}

/-! ## Multiples of powers of two -/

theorem exponent_lt (power : a.toNat = 2 ^ k) : k < 64 :=
  (Nat.pow_lt_pow_iff_right Nat.one_lt_two).mp (power ▸ a.toNat_lt)

theorem alignUp_dvd (value align : UInt64) (power : align.toNat = 2 ^ k) : 2 ^ k ∣ (alignUp value align).toNat := by
  unfold alignUp
  split
  next small =>
    rw [UInt64.le_iff_toNat_le] at small
    have one : 2 ^ k ≤ 1 := by simpa [power] using small
    have : 2 ^ k = 1 := Nat.le_antisymm one Nat.one_le_two_pow
    rw [this]
    exact Nat.one_dvd _
  next large =>
    have exponent := exponent_lt power
    have mask : (align - 1).toNat = 2 ^ k - 1 := by
      have one : 1 ≤ align := by
        rw [UInt64.le_iff_toNat_le,power]
        exact Nat.one_le_two_pow
      rw [UInt64.toNat_sub_of_le _ _ one,power]
      rfl
    -- The complement of the mask is itself a multiple of the power.
    have complement : (~~~(align - 1)).toNat = 2 ^ k * (2 ^ (64 - k) - 1) := by
      have whole : 2 ^ k * 2 ^ (64 - k) = 2 ^ 64 := by rw [← Nat.pow_add]; congr 1; omega
      rw [UInt64.toNat_not,Nat.mul_sub]
      have := Nat.one_le_two_pow (n := k)
      simp only [UInt64.size]
      omega
    refine Nat.dvd_of_mod_eq_zero (Nat.eq_of_testBit_eq fun i => ?_)
    rw [UInt64.toNat_and,complement,Nat.testBit_mod_two_pow,Nat.testBit_and,Nat.testBit_two_pow_mul]
    by_cases low : i < k
    · simp [Nat.not_le.mpr low]
    · simp [low]

theorem dvd_add_iff (small : k ≤ 64) (multiple : 2 ^ k ∣ b.toNat) : 2 ^ k ∣ (a + b).toNat ↔ 2 ^ k ∣ a.toNat := by
  rw [UInt64.toNat_add,Nat.dvd_mod_iff (Nat.pow_dvd_pow 2 small)]
  exact (Nat.dvd_add_iff_left multiple).symm

theorem toNat_max (a b : UInt64) : (max a b).toNat = max a.toNat b.toNat := by
  rw [show max a b = if a ≤ b then b else a from rfl]
  split
  next le => exact (max_eq_right (le_iff_toNat_le.mp le)).symm
  next gt => exact (max_eq_left (le_of_lt (UInt64.lt_iff_toNat_lt.mp (UInt64.not_le.mp gt)))).symm

theorem max_power (first : a.toNat = 2 ^ i) (second : b.toNat = 2 ^ j) : (max a b).toNat = 2 ^ max i j := by
  rw [toNat_max,first,second]
  rcases le_total i j with le | le
  · rw [Nat.max_eq_right le,Nat.max_eq_right (Nat.pow_le_pow_right Nat.two_pos le)]
  · rw [Nat.max_eq_left le,Nat.max_eq_left (Nat.pow_le_pow_right Nat.two_pos le)]

/-! ## Room in a section -/

namespace Elf.Section

theorem aligned_room {sec grown : Section} {more offset : Nat} (power : align.toNat = 2 ^ k)
    (room : (sec.alignTo align).2.grow? more = some (offset,grown)) : 2 ^ k ∣ offset ∧ offset < 2 ^ 32 := by
  obtain ⟨start,fits,_⟩ := grow?_eq _ _ _ _ room
  have limit := Linkable.limit_le (sec.alignTo align).2
  refine ⟨?_,by omega⟩
  have half : 2 ^ k ≤ 2 ^ 63 := Nat.pow_le_pow_right (by omega) (Nat.le_of_lt_succ (exponent_lt power))
  have multiple := alignUp_dvd (ofNat sec.size) align power
  subst start
  unfold alignTo at fits limit ⊢
  simp only at fits limit ⊢
  split at fits
  next padded =>
    rwa [if_pos padded]
  next full =>
    rw [if_neg full] at limit ⊢
    -- Nothing was padded, so the end was a multiple already.
    have size := toNat_ofNat_of_lt' (show sec.size < 2 ^ 64 by omega)
    have bounds := alignUp_bounds (ofNat sec.size) align (by omega)
    have same : (alignUp (ofNat sec.size) align).toNat = sec.size := by omega
    rwa [same] at multiple

end Elf.Section

/-! ## Sections in an image -/

namespace Link

variable {lookup : String → Option UInt64} {before middle arena after : Arena}

theorem layout_aligned (arena : Arena) (size : UInt64) (ids : List SectionId) :
    ∀ p ∈ ids.zip (layout arena size ids).1, ∀ k, (max (arena.get p.1).align 1).toNat = 2 ^ k → 2 ^ k ∣ p.2.toNat := by
  induction ids generalizing size with
  | nil => simp
  | cons id ids ih =>
    intro p member k power
    simp only [layout,zip_cons_cons,mem_cons] at member
    rcases member with rfl | later
    · exact alignUp_dvd _ _ power
    · exact ih _ p later k power

theorem layout_length (arena : Arena) (size : UInt64) (ids : List SectionId) :
    (layout arena size ids).1.length = ids.length := by
  induction ids generalizing size with
  | nil => rfl
  | cons id ids ih => exact congrArg Nat.succ (ih _)

theorem map_fst_spots (arena : Arena) : (spots arena).map (·.1) = arena.allocated :=
  map_fst_zip (le_of_eq (layout_length _ _ _).symm)

theorem place_aligned (sound : arena.Sound) (member : id ∈ arena.allocated)
    (power : (max (arena.get id).align 1).toNat = 2 ^ j) (fine : k ≤ j) (small : k ≤ 64) (page : 2 ^ k ∣ base.toNat) :
    2 ^ k ∣ ((place base arena (spots arena)).get id).address.toNat := by
  have firsts := map_fst_spots arena
  obtain ⟨⟨_,offset⟩,spot,rfl⟩ : ∃ p ∈ spots arena, p.1 = id := mem_map.mp (firsts ▸ member)
  rw [place_get base arena (spots arena) _ offset (firsts ▸ allocated_nodup sound.distinct)
    (allocated_bound member) spot]
  have multiple := dvd_trans (pow_dvd_pow 2 fine) (layout_aligned arena 0 arena.allocated _ spot j power)
  exact (dvd_add_iff small multiple).mpr page

/-! ## Tentative definitions -/

def commonAlign (arena : Arena) (i : Nat) : UInt64 := max (arena.symbol arena.symtab i).value 1

def PowersAsked (arena : Arena) : Prop :=
  ∀ i ∈ symbolIndexes arena, (arena.symbol arena.symtab i).index = common →
    ∃ k, (commonAlign arena i).toNat = 2 ^ k

/-- A definition of the common block has room in the zeroed section, and the section is aligned like it. -/
structure Housed (before : Arena) (i k : Nat) (now : Arena) : Prop where
  aligned : 2 ^ k ∣ (now.symbol before.symtab i).value.toNat
  within : (now.symbol before.symtab i).value.toNat + (before.symbol before.symtab i).size.toNat ≤
    (now.get before.bss).size
  finer : commonAlign before i ≤ (now.get before.bss).align

theorem placeCommon_housed (sound : before.Sound)
    (bound : j < before.symbolCount before.symtab) (fresh : j ∉ done)
    (tentative : (before.symbol before.symtab i).index = common)
    (power : (commonAlign before i).toNat = 2 ^ k) (state : CommonsPlaced before arena done)
    (housed : i ∈ done → Housed before i k arena) (run : placeCommon j arena = .ok ⟨⟩ after)
    (member : i ∈ done ++ [j]) : Housed before i k after := by
  have unread := state.waiting j fresh
  have now := state.kept.sound sound
  have here : j < arena.symbolCount arena.symtab := by rwa [state.kept.count]
  have cases := placeCommon_cases now here run
  rw [state.kept.symtab,state.kept.bss,unread] at cases
  rcases cases with ⟨other,rfl⟩ | ⟨_,_,others,offset,found,new⟩
  · refine housed ((mem_append.mp member).resolve_right fun own => other ?_)
    rwa [← mem_singleton.mp own]
  · obtain ⟨behind,fits,zeros,room⟩ := roomFor?_eq found
    have finer := (max_le_iff_both _ _ _).mp (UInt64.le_refl (max (arena.get before.bss).align
      (max (before.symbol before.symtab j).value 1)))
    by_cases same : i = j
    · subst same
      have limit := Linkable.limit_le (arena.get before.bss)
      have value : (after.symbol before.symtab i).value.toNat = offset := by
        rw [new]
        exact (toNat_ofNat' ..).trans (Nat.mod_eq_of_lt (by omega))
      refine ⟨?_,?_,?_⟩
      · rw [value]
        exact (aligned_room power found).1
      · rw [value,room,wider_size]
      · rw [room]
        exact finer.2
    · have old := housed (by simpa [same] using member)
      refine ⟨?_,?_,?_⟩
      · rw [others i same]
        exact old.aligned
      · rw [others i same,room,wider_size]
        exact le_trans old.within (by omega)
      · rw [room]
        exact UInt64.le_trans old.finer finer.1

theorem placeCommons_housed (sound : before.Sound) (member : i ∈ symbolIndexes before)
    (tentative : (before.symbol before.symtab i).index = common)
    (power : (commonAlign before i).toNat = 2 ^ k) (run : placeCommons before = .ok ⟨⟩ after) :
    Housed before i k after := by
  exact (placeCommons_keeps sound (by simp)
    (fun _ bound fresh state step housed => placeCommon_housed sound bound fresh tentative power state housed step) run).2 member

theorem placeCommons_power (standing : before.Standing) (powers : PowersAsked before)
    (run : placeCommons before = .ok ⟨⟩ after) : ∃ j, 5 ≤ j ∧ (after.get before.bss).align.toNat = 2 ^ j := by
  refine placeCommons_align (A := fun align => ∃ j, 5 ≤ j ∧ align.toNat = 2 ^ j) standing.toSound
    ⟨5,le_refl _,?_⟩ ?_ run
  · rw [standing.aligned _ (mem_filter.mp standing.inImage).2]
    rfl
  · rintro i member tentative align ⟨j,least,power⟩
    obtain ⟨k,own⟩ := powers i member tentative
    exact ⟨max j k,le_trans least (le_max_left _ _),max_power power own⟩

/-! ## Images -/

theorem relocate_opened (sound : before.Sound) (run : relocateIn memory base lookup before = .ok image after) :
    ∃ middle arena, placeCommons before = .ok ⟨⟩ middle ∧ CommonsPlaced before middle (symbolIndexes before) ∧
      SymbolsResolved lookup middle arena (symbolIndexes middle) ∧ after = place base arena (spots arena) ∧
      image.size = (imageSize arena).toNat := by
  obtain ⟨middle,arena,parts,commons,resolve,placed,-,eq⟩ := relocate_steps run
  have state := placeCommons_placed sound commons
  exact ⟨middle,arena,commons,state,resolve_resolved (state.kept.sound sound) resolve,placed,by rw [eq]⟩

theorem relocate_sections (standing : before.Standing) (powers : PowersAsked before)
    (page : 2 ^ 12 ∣ base.toNat) (run : relocateIn memory base lookup before = .ok image after) (member : id ∈ before.allocated) :
    2 ^ 5 ∣ (after.get id).address.toNat := by
  obtain ⟨middle,arena,commons,state,resolved,rfl,-⟩ := relocate_opened standing.toSound run
  have kept := state.kept.trans resolved.kept
  have member' : id ∈ arena.allocated := by rwa [allocated_congr kept.listed kept.flags]
  have coarse : ∃ j, 5 ≤ j ∧ (arena.get id).align.toNat = 2 ^ j := by
    by_cases zeroed : id = before.bss
    · obtain ⟨j,least,power⟩ := placeCommons_power standing powers commons
      refine ⟨j,least,?_⟩
      rwa [zeroed,← state.kept.bss,resolved.zeroed,state.kept.bss]
    · refine ⟨5,le_refl _,?_⟩
      rw [kept.align zeroed,standing.aligned id (mem_filter.mp member).2]
      rfl
  obtain ⟨j,least,power⟩ := coarse
  exact place_aligned (kept.sound standing.toSound) member' (max_power power (j := 0) rfl)
    (le_trans least (le_max_left _ _)) (by omega) (dvd_trans (pow_dvd_pow 2 (by omega)) page)

theorem relocate_listed (sound : before.Sound) (run : relocateIn memory base lookup before = .ok image after) :
    after.listed = before.listed := by
  obtain ⟨middle,arena,-,commons,resolved,rfl,-⟩ := relocate_opened sound run
  rw [((Moved.refl arena).place base (spots arena)).listed,resolved.kept.listed,commons.kept.listed]

theorem number_pos (numbered : before.Numbered) (inImage : sec ∈ before.allocated) : 0 < (before.get sec).number := by
  obtain ⟨k,at_⟩ := mem_iff_getElem?.mp (mem_filter.mp inImage).1
  rw [Arena.numbered,getElem?_drop,Array.getElem?_toList] at at_
  rw [(numbered _ sec at_).2]
  omega

theorem relocate_commonAddress (standing : before.Standing) (run : relocateIn memory base lookup before = .ok image after)
    (member : i ∈ symbolIndexes before) (tentative : (before.symbol before.symtab i).index = common) :
    symbolAddress after i = (after.get before.bss).address + (after.symbol before.symtab i).value ∧
      (after.symbol before.symtab i).value.toNat ≤ (after.get before.bss).size := by
  have listed := relocate_listed standing.toSound run
  obtain ⟨middle,arena,-,commons,resolved,rfl,-⟩ := relocate_opened standing.toSound run
  have moved := (Moved.refl arena).place base (spots arena)
  have symtab : (place base arena (spots arena)).symtab = before.symtab := by
    rw [moved.symtab,resolved.kept.symtab,commons.kept.symtab]
  have final := finalRecord standing.toSound member commons resolved
  simp only [FinalRecord,if_pos tentative] at final
  obtain ⟨offset,-,inside,record⟩ := final
  have number := UInt16.toNat_ofNat_of_lt' standing.number.2
  have absolute : UInt16.ofNat (before.get before.bss).number ≠ abs := by
    intro eq
    have ordinary := standing.ordinary
    rw [← number,eq] at ordinary
    exact absurd ordinary (by decide)
  have found : (place base arena (spots arena)).byNumber? (before.get before.bss).number = some before.bss := by
    rw [byNumber?,listed]
    exact standing.numbered.byNumber? (allocated_listed standing.inImage)
  refine ⟨?_,?_⟩
  · simp [symbolAddress,symtab,moved.symbol,record,standing.toSound.bss_defined,absolute,number,found]
  · obtain ⟨address,eq⟩ := moved.section_ before.bss
    rw [moved.symbol,record,eq]
    exact Nat.le_trans (toNat_ofNat' ▸ Nat.mod_le _ _) (Nat.le_trans (Nat.le_add_right _ _) inside)

/-- A tentative definition comes to lie at a multiple of its alignment, as far as the image does. -/
theorem relocate_commons (standing : before.Standing) (powers : PowersAsked before)
    (page : 2 ^ 12 ∣ base.toNat) (run : relocateIn memory base lookup before = .ok image after)
    (member : i ∈ symbolIndexes before) (tentative : (before.symbol before.symtab i).index = common)
    (power : (commonAlign before i).toNat = 2 ^ k) (small : k ≤ 12) : 2 ^ k ∣ (symbolAddress after i).toNat := by
  rw [(relocate_commonAddress standing run member tentative).1]
  obtain ⟨middle,arena,commons,state,resolved,rfl,-⟩ := relocate_opened standing.toSound run
  have kept := state.kept.trans resolved.kept
  obtain ⟨j,-,coarse⟩ := placeCommons_power standing powers commons
  have housed := placeCommons_housed standing.toSound member tentative power commons
  have finer : k ≤ j := by
    have finer := le_iff_toNat_le.mp housed.finer
    rw [power,coarse] at finer
    exact (Nat.pow_le_pow_iff_right Nat.one_lt_two).mp finer
  -- The record has the number of the zeroed section, so it is not looked up again.
  have final : arena.symbol before.symtab i = middle.symbol before.symtab i := by
    have placed := state.placed i member
    simp only [PlacedRecord,if_pos tentative] at placed
    obtain ⟨offset,-,-,record⟩ := placed
    have later := resolved.resolved i (by simpa only [symbolIndexes,state.kept.count] using member)
    simp only [ResolvedRecord,state.kept.symtab] at later
    rwa [if_neg fun h => standing.toSound.bss_defined (by rw [record] at h; exact h.1)] at later
  rw [((Moved.refl arena).place base (spots arena)).symbol,final,dvd_add_iff (by omega) housed.aligned]
  refine place_aligned (kept.sound standing.toSound) ?_ (j := max j 0) (max_power ?_ rfl)
    (le_trans finer (le_max_left _ _)) (by omega)
    (dvd_trans (pow_dvd_pow 2 small) page)
  · rw [allocated_congr kept.listed kept.flags]
    exact standing.inImage
  · rwa [← state.kept.bss,resolved.zeroed,state.kept.bss]

theorem relocate_symbolAddress (standing : before.Standing)
    (run : relocateIn memory base lookup before = .ok image after) (member : i ∈ symbolIndexes before)
    (inImage : sec ∈ before.allocated) (number : (before.symbol before.symtab i).index.toNat = (before.get sec).number)
    (ordinary : (before.symbol before.symtab i).index < reserved) :
    symbolAddress after i = (after.get sec).address + (before.symbol before.symtab i).value := by
  obtain ⟨symtab,arena,final,same⟩ := relocate_finalRecord standing.toSound member run
  have found : after.byNumber? (before.symbol before.symtab i).index.toNat = some sec := by
    rw [number,byNumber?,relocate_listed standing.toSound run]
    exact standing.numbered.byNumber? (allocated_listed inImage)
  have defined : (before.symbol before.symtab i).index ≠ undef := by
    intro undefined
    have := number_pos standing.numbered inImage
    rw [← number,undefined] at this
    exact absurd this (by decide)
  have common : (before.symbol before.symtab i).index ≠ common :=
    fun eq => absurd (eq ▸ ordinary) (by decide)
  have absolute : (before.symbol before.symtab i).index ≠ abs :=
    fun eq => absurd (eq ▸ ordinary) (by decide)
  simp only [FinalRecord,if_neg common,if_neg fun h : _ ∧ _ => defined h.1] at final
  simp [symbolAddress,symtab,same,final,defined,absolute,found]

/-- An object of `size` bytes at an offset of a section, in an image. -/
structure ObjectAt (before after : Arena) (sec : SectionId) (offset size align : UInt64) : Prop where
  inside : offset.toNat + size.toNat ≤ (before.get sec).size
  symbol : ∀ i ∈ symbolIndexes before, (before.symbol before.symtab i).index.toNat = (before.get sec).number →
    (before.symbol before.symtab i).index < reserved → (before.symbol before.symtab i).value = offset →
      symbolAddress after i = (after.get sec).address + offset
  /-- It is aligned up to the alignment of all sections. -/
  aligned : ∀ k ≤ 5, align.toNat = 2 ^ k → 2 ^ k ∣ ((after.get sec).address + offset).toNat
  /-- Beyond that it is aligned if its section happens to be. -/
  beyond : ∀ k, align.toNat = 2 ^ k →
    (2 ^ k ∣ ((after.get sec).address + offset).toNat ↔ 2 ^ k ∣ (after.get sec).address.toNat)

end Link

/-! ## Definitions of objects -/

namespace Compile

section Definitions

variable {env : Env}

theorem allocStatic_room
    (run : allocStatic sec size align env s = .ok offset s') (inside : sec < s.arena.sections.size) :
    offset.toNat + size.toNat = (s'.arena.get sec).size ∧ ∀ k, align.toNat = 2 ^ k → 2 ^ k ∣ offset.toNat := by
  simp only [allocStatic,run_bind,run_modify,run_get] at run
  rw [get_update_same inside] at run
  cases room : ((s.arena.get sec).alignTo (max align 1)).2.grow? size.toNat with
  | none =>
    simp only [room] at run
    cases run
  | some grown =>
    simp only [room] at run
    cases run
    obtain ⟨start,fits,zeros,eq⟩ := grow?_eq _ _ _ _ room
    have limit := Linkable.limit_le ((s.arena.get sec).alignTo (max align 1)).2
    have small := toNat_ofNat_of_lt' (show grown.1 < 2 ^ 64 by omega)
    refine ⟨?_,fun k power => ?_⟩
    · rw [small,get_update_same (by simpa using inside),eq,start]
      rfl
    · rw [small]
      have power' : (max align 1).toNat = 2 ^ k := by rw [max_power power (j := 0) rfl,max_zero]
      exact (aligned_room power' room).1

/-- A definition gives an object its room and a symbol that stands for it. -/
def Houses (env : Env) (id : EntityId) (sec : SectionId) (offset size align : UInt64) (s s' : Compiler) : Prop :=
  ∃ t u v w, s.arena.Refers t.arena ∧ allocStatic sec size align env t = .ok offset u ∧
    bind id (UInt16.ofNat (u.arena.get sec).number) offset size env v = .ok ⟨⟩ w ∧ v.arena = u.arena ∧
    w.arena.Develops s'.arena

/-- The type of an object that is not initialized: an array of unknown length has one element. -/
def tentativeType : CType → CType
  | .array elem none _ => elem.arrayOf (some 1)
  | ty => ty

theorem extentOr_run
    (run : extentOr fault ty env s = .ok extent s') : s' = s ∧ ty.extent? s.scope.structs = some extent := by
  simp only [extentOr,run_bind,run_get] at run
  cases known : ty.extent? s.scope.structs with
  | none =>
    simp only [known] at run
    cases run
  | some found =>
    simp only [known] at run
    cases run
    exact ⟨rfl,rfl⟩

theorem check_run [Decidable c] {f : Unit → CompileM α} {a : α}
    (run : (if c then fail fault >>= f else f ()) env s = .ok a s') : ¬c ∧ f () env s = .ok a s' := by
  split at run
  next => cases run
  next passed => exact ⟨passed,run⟩

theorem defineInitialized_houses (sound : env.Sound) (run : defineInitialized id env s = .ok ⟨⟩ s') :
    ∃ ty t extent offset, completeArray (s.scope.get id).type env s = .ok ty t ∧
      ty.extent? t.scope.structs = some extent ∧
      Houses env id ((s.scope.get id).section_.getD s.arena.data) offset extent.size
        (max extent.align (s.scope.get id).align) s s' := by
  obtain ⟨_,_,⟨⟩,run⟩ := bind_ok.mp run
  obtain ⟨-,run⟩ := check_run run
  obtain ⟨ty,t,complete,run⟩ := bind_ok.mp run
  obtain ⟨extent,_,measured,rest⟩ := bind_ok.mp run
  obtain ⟨rfl,known⟩ := extentOr_run measured
  obtain ⟨_,_,⟨⟩,rest⟩ := bind_ok.mp rest
  obtain ⟨-,rest⟩ := check_run rest
  obtain ⟨offset,u,room,rest⟩ := bind_ok.mp rest
  obtain ⟨_,v,⟨⟩,rest⟩ := bind_ok.mp rest
  obtain ⟨_,_,⟨⟩,rest⟩ := bind_ok.mp rest
  obtain ⟨_,w,bound,filled⟩ := bind_ok.mp rest
  have refers := ((completeArray_keeps (R := Referring) _).run sound complete).refers
  have data := congrArg data refers.framed.shell
  rw [data] at room bound
  exact ⟨ty,_,extent,offset,complete,known,_,u,_,w,refers,room,bound,rfl,
    ((initializer_keeps _ _ _).run sound filled).develops⟩

theorem allocTentative_houses (run : allocTentative id size align env s = .ok ⟨⟩ s') :
    bind id common align size env s = .ok ⟨⟩ s' ∨
      ∃ offset, Houses env id ((s.scope.get id).section_.getD s.arena.bss) offset size align s s' := by
  obtain ⟨_,_,⟨⟩,run⟩ := bind_ok.mp run
  obtain ⟨_,_,⟨⟩,run⟩ := bind_ok.mp run
  split at run
  · exact .inl run
  · obtain ⟨_,_,⟨⟩,run⟩ := bind_ok.mp run
    obtain ⟨offset,u,room,run⟩ := bind_ok.mp run
    obtain ⟨_,_,⟨⟩,bound⟩ := bind_ok.mp run
    exact .inr ⟨offset,s,u,u,s',.refl,room,bound,rfl,.refl⟩

theorem view_update (view : Entity → α) (keep : ∀ e, view (f e) = view e) (scope : Scope)
    (id : EntityId) : view ((scope.update id f).get id) = view (scope.get id) := by
  simp only [Scope.get,Scope.update,Array.getElem?_modify]
  cases scope.entities[id]? with
  | none => rfl
  | some e => exact keep e

theorem measured_houses {least : UInt64} (run : (do
      let extent ← extentOr .unknownSize ty
      modifyEntity id f
      allocTentative id extent.size (max extent.align least)) env s = .ok ⟨⟩ s')
    (keep : ∀ e, (f e).section_ = e.section_) :
    ∃ extent t, ty.extent? s.scope.structs = some extent ∧ t.arena = s.arena ∧
      (bind id common (max extent.align least) extent.size env t = .ok ⟨⟩ s' ∨
      ∃ offset, Houses env id ((s.scope.get id).section_.getD s.arena.bss) offset extent.size
        (max extent.align least) s s') := by
  obtain ⟨extent,_,measured,rest⟩ := bind_ok.mp run
  obtain ⟨rfl,known⟩ := extentOr_run measured
  refine ⟨extent,_,known,?_,(allocTentative_houses rest).imp_right ?_⟩
  · rfl
  rw [view_update Entity.section_ keep]
  exact fun houses => houses

theorem defineTentative_houses (run : defineTentative id env s = .ok ⟨⟩ s') :
    (s' = s ∧ ((s.scope.get id).flags.defined = true ∨ (s.scope.get id).flags.tentative = true)) ∨
    ∃ extent t, (tentativeType (s.scope.get id).type).extent? s.scope.structs = some extent ∧ t.arena = s.arena ∧
      (bind id common (max extent.align (s.scope.get id).align) extent.size env t = .ok ⟨⟩ s' ∨
      ∃ offset, Houses env id ((s.scope.get id).section_.getD s.arena.bss) offset extent.size
        (max extent.align (s.scope.get id).align) s s') := by
  obtain ⟨_,_,⟨⟩,run⟩ := bind_ok.mp run
  generalize entityEq : s.scope.get id = e at run ⊢
  cases defined : e.flags.defined with
  | true =>
    simp only [defined] at run
    cases run
    exact .inl ⟨rfl,.inl rfl⟩
  | false =>
    cases tentative : e.flags.tentative with
    | true =>
      simp only [defined,tentative] at run
      obtain ⟨_,_,⟨⟩,run⟩ := bind_ok.mp run
      split at run
      · cases run
        exact .inl ⟨rfl,.inr rfl⟩
      · cases run
    | false =>
      simp only [defined,tentative] at run
      refine .inr ?_
      cases shape : e.type with
      | array elem count q =>
        cases count with
        | none =>
          simp only [shape] at run
          subst entityEq
          have houses := measured_houses run fun _ => rfl
          exact houses
        | some count =>
          simp only [shape] at run
          subst entityEq
          exact measured_houses run fun _ => rfl
      | _ =>
        simp only [shape] at run
        subst entityEq
        exact measured_houses run fun _ => rfl

/-! ## Objects in an image -/

/-- The room that a definition gave an object is there in every image that is linked later. -/
theorem Houses.objectAt {before after : Arena} {image : Image} {base : UInt64} {lookup : String → Option UInt64}
    (houses : Houses env id sec offset size align s s') (sound : env.Sound)
    (start : initial.Develops s.arena) (rest : s'.arena.Develops before) (powers : PowersAsked before)
    (page : 2 ^ 12 ∣ base.toNat) (linked : relocateIn memory base lookup before = .ok image after)
    (inImage : sec ∈ s.arena.allocated) : ObjectAt before after sec offset size align := by
  obtain ⟨t,u,v,w,refers,room,bound,same,later⟩ := houses
  have stored := ((allocStatic_keeps (R := Stores) sec size align).run sound room).develops
  have given := (start.trans refers.develops).trans stored
  have onward : u.arena.Develops before :=
    same ▸ (((bind_keeps (R := Stores) id _ offset size).run sound bound).develops.trans later).trans rest
  have standing := (given.trans onward).standing
  have here : sec ∈ t.arena.allocated := refers.develops.grows.allocated inImage
  have there : sec ∈ u.arena.allocated := stored.grows.allocated here
  have linkedTo : sec ∈ before.allocated := onward.grows.allocated there
  obtain ⟨stop,multiple⟩ := allocStatic_room room (allocated_bound here)
  have address := relocate_sections standing powers page linked linkedTo
  constructor
  case inside =>
    rw [stop]
    exact onward.grows.longer given.standing.aside sec (mem_filter.mp there).2
  case symbol =>
    intro i member number ordinary value
    rw [relocate_symbolAddress standing linked member linkedTo number ordinary,value]
  case aligned =>
    intro k small power
    exact (dvd_add_iff (by omega) (multiple k power)).mpr (dvd_trans (pow_dvd_pow 2 small) address)
  case beyond =>
    intro k power
    exact dvd_add_iff (le_of_lt (exponent_lt power)) (multiple k power)

end Definitions

/-- A definition gives an object the storage it asks for, aligned in an image as far as its section is. -/
def Settles (env : Env) (id : EntityId) (sec : SectionId) (extent : Extent) (before after : Arena) (s s' : Compiler) :
    Prop :=
  ∃ offset, Houses env id sec offset extent.size (max extent.align (s.scope.get id).align) s s' ∧
    (sec ∈ s.arena.allocated →
      ObjectAt before after sec offset extent.size (max extent.align (s.scope.get id).align))

/-- In an image of accepted units that begins at a page, every object of a definition is aligned as its type and
its attribute ask for, if that is no more than the alignment of all sections; beyond that it is aligned as
its section is. Tentative definitions that are common symbols are aligned whatever they ask for, up to a page. A unit
may store records in the symbol table itself, so that common symbols ask for powers of two is a condition. -/
theorem linked_objects_aligned (session : Session) (base : UInt64) (lookup : String → Option UInt64) (image : Image)
    (after : Arena) (accepted : session.Accepted) (powers : PowersAsked session.arena)
    (page : 4096 ∣ base.toNat) (linked : relocateIn memory base lookup session.arena = .ok image after) :
    (∀ host settings id (s s' : Compiler), Arena.initial.Develops s.arena → s'.arena.Develops session.arena →
      defineInitialized id (env host settings) s = .ok ⟨⟩ s' →
      ∃ ty t extent, completeArray (s.scope.get id).type (env host settings) s = .ok ty t ∧
        ty.extent? t.scope.structs = some extent ∧
        Settles (env host settings) id ((s.scope.get id).section_.getD s.arena.data) extent session.arena after s s') ∧
    (∀ host settings id (s s' : Compiler), Arena.initial.Develops s.arena → s'.arena.Develops session.arena →
      defineTentative id (env host settings) s = .ok ⟨⟩ s' →
      (s' = s ∧ ((s.scope.get id).flags.defined = true ∨ (s.scope.get id).flags.tentative = true)) ∨
      ∃ extent t, (tentativeType (s.scope.get id).type).extent? s.scope.structs = some extent ∧ t.arena = s.arena ∧
        (bind id common (max extent.align (s.scope.get id).align) extent.size (env host settings) t = .ok ⟨⟩ s' ∨
        Settles (env host settings) id ((s.scope.get id).section_.getD s.arena.bss) extent session.arena after s s')) ∧
    ∀ i ∈ symbolIndexes session.arena,
      (session.arena.symbol session.arena.symtab i).index = common →
      ∀ k ≤ 12, (session.arena.symbol session.arena.symtab i).value.toNat = 2 ^ k →
        2 ^ k ∣ (symbolAddress after i).toNat := by
  refine ⟨fun host settings id s s' start rest run => ?_,fun host settings id s s' start rest run => ?_,
    fun i member tentative k small power => ?_⟩
  · have sound := env_sound host settings
    obtain ⟨ty,t,extent,offset,complete,known,houses⟩ := defineInitialized_houses sound run
    exact ⟨ty,t,extent,complete,known,offset,houses,houses.objectAt sound start rest powers page linked⟩
  · have sound := env_sound host settings
    rcases defineTentative_houses run with had | ⟨extent,t,known,same,common | ⟨offset,houses⟩⟩
    · exact .inl had
    · exact .inr ⟨extent,t,known,same,.inl common⟩
    · exact .inr ⟨extent,t,known,same,.inr ⟨offset,houses,houses.objectAt sound start rest powers page linked⟩⟩
  · refine relocate_commons accepted.develops.standing powers page linked member tentative ?_ small
    rw [commonAlign,max_power power (j := 0) rfl,Nat.max_zero]

def compiled (text : String) : EStateM.Result Stop Session Unit :=
  Session.compileUnit (Source.ofBytes "<string>" (Bytes.ofString text)) { fuel := 1000, base := 0x400000 }
    { settings := { common := true } }

/-- What a unit stores in the symbol table itself may ask for any alignment, and the unit is accepted. -/
theorem stored_alignment_accepted : ∃ session : Session, session.Accepted ∧ ¬PowersAsked session.arena := by
  have stored : leaves (fun session : Session => decide (∃ i ∈ symbolIndexes session.arena,
      (session.arena.symbol session.arena.symtab i).index = common ∧ (commonAlign session.arena i).toNat = 3))
      (compiled "long r[3] __attribute__((section(\".symtab\"))) = \x7b-0xdffef00000000,3,4\x7d;") = true := by
    decide +kernel
  obtain ⟨_,session,run,asks⟩ := leaves_iff.mp stored
  obtain ⟨i,member,tentative,three⟩ := of_decide_eq_true asks
  refine ⟨session,.unit (.fresh rfl) run,fun powers => ?_⟩
  obtain ⟨k,power⟩ := powers i member tentative
  rw [three] at power
  cases k with
  | zero => cases power
  | succ k => omega

def tentatives : String := "char d; int x __attribute__((aligned(64)));"

/-- The state in which the initializer of `y` is read. -/
def atDefinition (session : Session) : Compiler :=
  let five : Token := { kind := .number "5", line := 1 }
  { pre := { frames := [{ tokens := [{ five with kind := .punct .semicolon }] }] }, tok := five,
    arena := session.arena, text := session.arena.text,
    scope := (({} : Scope).alloc { name := .ident "y", type := .plainInt, storage := .global }).2 }

/-- A unit with a tentative definition `x` that becomes a common symbol and with an initialized object `y`. -/
def Mixed (start session : Session) : Prop :=
  succeeds (fun _ => true) (relocate 0x400000 (fun _ => none) session.arena) = true ∧
  session.arena.symbolName session.arena.symtab 3 = "x" ∧
  (∀ i ∈ symbolIndexes session.arena, (session.arena.symbol session.arena.symtab i).index = common →
    commonAlign session.arena i = 1 ∨ commonAlign session.arena i = 64) ∧
  3 ∈ symbolIndexes session.arena ∧ (session.arena.symbol session.arena.symtab 3).index = common ∧
  (session.arena.symbol session.arena.symtab 3).value.toNat = 2 ^ 6 ∧
  leaves (fun s' => s'.arena == session.arena)
    (defineInitialized 0 (env { fuel := 1000 } { common := true }) (atDefinition start)) = true

instance (start session : Session) : Decidable (Mixed start session) := by
  unfold Mixed
  infer_instance

theorem linked_objects_aligned_mixed : ∃ start session image after s' extent,
    compiled tentatives = .ok ⟨⟩ start ∧ compiled (tentatives ++ " int y = 5;") = .ok ⟨⟩ session ∧
    relocate 0x400000 (fun _ => none) session.arena = .ok image after ∧
    session.arena.symbolName session.arena.symtab 3 = "x" ∧ 64 ∣ (symbolAddress after 3).toNat ∧
    defineInitialized 0 (env { fuel := 1000 } { common := true }) (atDefinition start) = .ok ⟨⟩ s' ∧
    Settles (env { fuel := 1000 } { common := true }) 0 start.arena.data extent session.arena after
      (atDefinition start) s' := by
  have runs : leaves (fun start => leaves (fun session => decide (Mixed start session))
      (compiled (tentatives ++ " int y = 5;"))) (compiled tentatives) = true := by decide +kernel
  obtain ⟨_,start,first,rest⟩ := leaves_iff.mp runs
  obtain ⟨_,session,second,mixed⟩ := leaves_iff.mp rest
  obtain ⟨links,name,asked,member,tentative,power,defines⟩ := of_decide_eq_true mixed
  obtain ⟨image,after,linked,-⟩ := succeeds_iff.mp links
  obtain ⟨_,s',defined,same⟩ := leaves_iff.mp defines
  have accepted : start.Accepted := .unit (.fresh rfl) first
  obtain ⟨initialized,-,commons⟩ := linked_objects_aligned session 0x400000 (fun _ => none) image after
    (.unit (.fresh rfl) second)
    (fun i member tentative => (asked i member tentative).elim (fun one => ⟨0,by rw [one]; rfl⟩)
      fun six => ⟨6,by rw [six]; rfl⟩) (by decide) linked
  obtain ⟨ty,t,extent,_,_,settles⟩ := initialized { fuel := 1000 } { common := true } 0 (atDefinition start) s'
    accepted.develops (eq_of_beq same ▸ .refl) defined
  exact ⟨start,session,image,after,s',extent,first,second,linked,name,commons 3 member tentative 6 (by decide) power,
    defined,settles⟩

def linkedSymbols (text : String) : Option (List (String × UInt64)) :=
  match Session.compileText text { fuel := 1000, base := 0x400000 } {} with
  | .ok _ s =>
    match relocate 0x400000 (fun _ => none) s.arena with
    | .ok image _ => some image.symbols
    | .error _ _ => none
  | .error _ _ => none

/-- An initialized object that asks for more than its section has is not aligned when code stands before it. -/
theorem aligned_object_misplaced :
    linkedSymbols "int f(void)\x7breturn 1;\x7d int x __attribute__((aligned(64))) = 1;" =
      some [("f",0x400000),("x",0x400020)] ∧ ¬64 ∣ (0x400020 : UInt64).toNat := by
  decide +kernel

end Compile
end OnePass
