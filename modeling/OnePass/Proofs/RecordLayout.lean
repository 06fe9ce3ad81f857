import Mathlib.Order.Bounds.Defs
import OnePass.Proofs.Alignment

/-! # The layout of structs and unions

Members follow each other at the next multiple of their alignment, and no sum wraps. A size is a multiple of the
alignment, which is a power of two. The last rounding may lead to `2 ^ 63`, one more than the largest size. -/
namespace OnePass.Layout

open Layout List

variable {structs : Array StructDef} {members placed : List Field}

/-- Tables that come about by declaring structs and defining them from what is defined already. -/
inductive Laid : Array StructDef → Prop
  | empty : Laid #[]
  | declare {structs : Array StructDef} (laid : Laid structs) (tag : Name) (isUnion : Bool) :
      Laid (structs.push { tag, isUnion })
  | define {structs : Array StructDef} {isUnion : Bool} {minAlign : UInt64} {members placed : List Field} {e : Extent}
      (laid : Laid structs) (power : minAlign = 0 ∨ ∃ k ≤ 62, minAlign.toNat = 2 ^ k)
      (run : fields structs isUnion minAlign members = .ok (placed,e)) (id : StructId) (fields : List Field) :
      Laid (structs.modify id fun sd => { sd with fields, size := e.size, align := e.align, defined := true })

/-- The size is a multiple of the alignment, which is a power of two. -/
def Regular (e : Extent) : Prop := ∃ k ≤ 62, e.align.toNat = 2 ^ k ∧ 2 ^ k ∣ e.size.toNat ∧ e.size.toNat ≤ 2 ^ 63

/-- The next multiple of an alignment. -/
def IsNext (start align next : Nat) : Prop := IsLeast {n | start ≤ n ∧ align ∣ n} next

/-- Members stand one behind the other from `start` to `stop`, each as soon as its alignment allows. -/
inductive Tiles (structs : Array StructDef) : Nat → List Field → Nat → Prop
  | nil (start : Nat) : Tiles structs start [] start
  | cons {start stop : Nat} {f : Field} {rest : List Field} {e : Extent} (known : f.type.extent? structs = some e)
      (room : start + e.align.toNat < 2 ^ 64) (next : IsNext start e.align.toNat f.offset.toNat)
      (tiles : Tiles structs (f.offset.toNat + e.size.toNat) rest stop) : Tiles structs start (f :: rest) stop

theorem alignUp_isNext (power : align.toNat = 2 ^ k) (room : value.toNat + align.toNat < 2 ^ 64) :
    IsNext value.toNat align.toNat (alignUp value align).toNat := by
  obtain ⟨behind,near⟩ := alignUp_bounds value align (le_of_lt room)
  have multiple : align.toNat ∣ (alignUp value align).toNat := power ▸ alignUp_dvd value align power
  refine ⟨⟨behind,multiple⟩,fun n ⟨le,divides⟩ => Nat.le_of_lt_add_of_dvd ?_ multiple divides⟩
  have := power ▸ Nat.two_pow_pos k
  omega

theorem Tiles.snoc (tiles : Tiles structs start first stop)
    (known : f.type.extent? structs = some e) (room : stop + e.align.toNat < 2 ^ 64)
    (next : IsNext stop e.align.toNat f.offset.toNat) :
    Tiles structs start (first ++ [f]) (f.offset.toNat + e.size.toNat) := by
  induction tiles with
  | nil start => exact .cons known room next (.nil _)
  | cons known' room' next' _ ih => exact .cons known' room' next' (ih room next)

theorem toNat_ofNat_size (fits : n ≤ maxObjectSize.toNat) : (UInt64.ofNat n).toNat = n ∧ n < 2 ^ 63 := by
  have short : n < 2 ^ 63 := lt_of_le_of_lt fits (by decide)
  exact ⟨by rw [UInt64.toNat_ofNat',Nat.mod_eq_of_lt (by omega)],short⟩

theorem regular_scalar (n : UInt64) (small : k ≤ 4) (is : n.toNat = 2 ^ k) : Regular ⟨n,n⟩ ∧ n.toNat < 2 ^ 63 := by
  have low : n.toNat ≤ 2 ^ 4 := is ▸ Nat.pow_le_pow_right Nat.two_pos small
  have short : n.toNat < 2 ^ 63 := by omega
  exact ⟨⟨k,by omega,is,is ▸ dvd_refl _,le_of_lt short⟩,short⟩

/-- Every type has a regular extent, and those that are not structs are never too large. -/
theorem extent?_regular {ty : CType} (table : ∀ sd ∈ structs, sd.defined = true → Regular ⟨sd.size,sd.align⟩)
    (known : ty.extent? structs = some e) : Regular e ∧ (ty.isStruct = true ∨ e.size.toNat < 2 ^ 63) := by
  have scalar {k : Nat} n {ty : CType} (small : k ≤ 4) is :
      Regular ⟨n,n⟩ ∧ (ty.isStruct = true ∨ n.toNat < 2 ^ 63) :=
    ⟨(regular_scalar n small is).1,.inr (regular_scalar n small is).2⟩
  fun_induction CType.extent? structs ty generalizing e with
  | case1 | case7 => cases known; exact scalar (k := 0) 1 (by decide) rfl
  | case2 rank =>
    cases known
    cases rank with
    | bool | char => exact scalar (k := 0) 1 (by decide) rfl
    | short => exact scalar (k := 1) 2 (by decide) rfl
    | int => exact scalar (k := 2) 4 (by decide) rfl
    | long => exact scalar (k := 3) 8 (by decide) rfl
  | case3 => cases known; exact scalar (k := 2) 4 (by decide) rfl
  | case4 | case6 => cases known; exact scalar (k := 3) 8 (by decide) rfl
  | case5 => cases known; exact scalar (k := 4) 16 (by decide) rfl
  | case8 elem _ unit count inner ih =>
    obtain ⟨total,product,rfl⟩ := Option.map_eq_some_iff.mp known
    obtain ⟨⟨k,small,power,divides,_⟩,_⟩ := ih inner
    unfold CType.times? at product
    dsimp only at product
    split at product <;> cases product
    next fits =>
      obtain ⟨whole,short⟩ := toNat_ofNat_size fits
      refine ⟨⟨k,small,power,?_,?_⟩,.inr (by rwa [whole])⟩
      · rw [whole]
        exact Nat.dvd_mul_right_of_dvd divides _
      · rw [whole]
        exact le_of_lt short
  | case10 id _ sd found defined =>
    cases known
    exact ⟨table sd (Array.mem_of_getElem? found) defined,.inl rfl⟩
  | case9 | case11 | case12 => cases known

/-! ## Members -/

/-- The member lies inside an object of the extent. -/
def Inside (structs : Array StructDef) (size align : UInt64) (f : Field) : Prop :=
  ∃ e, f.type.extent? structs = some e ∧ e.align.toNat ∣ align.toNat ∧ e.align.toNat ∣ f.offset.toNat ∧
    f.offset.toNat + e.size.toNat ≤ size.toNat

theorem Inside.mono (inside : Inside structs size align f)
    (le : size.toNat ≤ size'.toNat) (divides : align.toNat ∣ align'.toNat) : Inside structs size' align' f := by
  obtain ⟨e,known,coarse,multiple,ends⟩ := inside
  exact ⟨e,known,dvd_trans coarse divides,multiple,le_trans ends le⟩

/-- What holds of the members laid out so far. -/
structure Sound (structs : Array StructDef) (isUnion : Bool) (minAlign : UInt64) (p : Progress) : Prop where
  power : ∃ k ≤ 62, p.align.toNat = 2 ^ k
  least : minAlign ≠ 0 → minAlign.toNat ∣ p.align.toNat
  bound : p.size.toNat ≤ 2 ^ 63
  inside : ∀ f ∈ p.placed, Inside structs p.size p.align f
  united : isUnion = true → ∀ f ∈ p.placed, f.offset = 0
  tiled : isUnion = false → p.size = p.stop ∧ p.size.toNat < 2 ^ 63 ∧ Tiles structs 0 p.placed.reverse p.size.toNat

section

variable (table : ∀ sd ∈ structs, sd.defined = true → Regular ⟨sd.size,sd.align⟩)

include table

theorem addField_sound (sound : Sound structs isUnion minAlign p) (run : addField structs isUnion p f = .ok q) :
    Sound structs isUnion minAlign q ∧ ∃ offset, q.placed = { f with offset } :: p.placed := by
  unfold addField at run
  split at run
  next => cases run
  next e known =>
    obtain ⟨⟨k,small,power,divides,bound⟩,_⟩ := extent?_regular table known
    obtain ⟨j,small',power'⟩ := sound.power
    have wide : (max p.align e.align).toNat = 2 ^ max j k := max_power power' power
    have higher : p.align.toNat ∣ (max p.align e.align).toNat := by
      rw [wide,power']
      exact pow_dvd_pow 2 (le_max_left _ _)
    have here : e.align.toNat ∣ (max p.align e.align).toNat := by
      rw [wide,power]
      exact pow_dvd_pow 2 (le_max_right _ _)
    have coarse := Nat.max_le.mpr ⟨small',small⟩
    have least some := dvd_trans (sound.least some) higher
    split at run
    next union =>
      cases run
      have size := toNat_max p.size e.size
      have upper : (max p.size e.size).toNat ≤ 2 ^ 63 := size ▸ Nat.max_le.mpr ⟨sound.bound,bound⟩
      have before : p.size.toNat ≤ (max p.size e.size).toNat := size ▸ le_max_left _ _
      have holds : 0 + e.size.toNat ≤ (max p.size e.size).toNat := by omega
      exact ⟨⟨⟨_,coarse,wide⟩,least,upper,forall_mem_cons.mpr ⟨⟨e,known,here,Nat.dvd_zero _,holds⟩,
        fun g member => (sound.inside g member).mono before higher⟩,
        fun _ => forall_mem_cons.mpr ⟨rfl,sound.united union⟩,fun no => absurd (no.symm.trans union) nofun⟩,_,rfl⟩
    next struct =>
      have struct : isUnion = false := by simpa using struct
      dsimp only at run
      split at run
      next fits =>
        cases run
        obtain ⟨same,short,tiles⟩ := sound.tiled struct
        obtain ⟨whole,ends⟩ := toNat_ofNat_size fits
        have room : p.stop.toNat + e.align.toNat < 2 ^ 64 := by
          have := Nat.pow_le_pow_right Nat.two_pos small
          rw [← same]
          omega
        have next := alignUp_isNext power room
        have before : p.size.toNat ≤ (alignUp p.stop e.align).toNat + e.size.toNat := by
          rw [same]
          exact Nat.le_trans next.1.1 (Nat.le_add_right _ _)
        rw [← whole] at ends before
        refine ⟨⟨⟨_,coarse,wide⟩,least,le_of_lt ends,forall_mem_cons.mpr
          ⟨⟨e,known,here,next.1.2,le_of_eq whole.symm⟩,fun g member => (sound.inside g member).mono before higher⟩,
          fun union => absurd (struct.symm.trans union) nofun,fun _ => ⟨rfl,ends,?_⟩⟩,_,rfl⟩
        rw [reverse_cons,whole]
        exact (same ▸ tiles).snoc known room next
      next => cases run

theorem foldlM_sound (sound : Sound structs isUnion minAlign p)
    (run : members.foldlM (addField structs isUnion) p = .ok q) :
    Sound structs isUnion minAlign q ∧ q.placed.reverse.map (fun f => (f.name,f.type)) =
      p.placed.reverse.map (fun f => (f.name,f.type)) ++ members.map fun f => (f.name,f.type) := by
  induction members generalizing p with
  | nil =>
    cases run
    exact ⟨sound,by simp⟩
  | cons f members ih =>
    rw [foldlM_cons] at run
    cases step : addField structs isUnion p f with
    | error fault =>
      rw [step] at run
      cases run
    | ok next =>
      rw [step] at run
      obtain ⟨kept,offset,placed⟩ := addField_sound table sound step
      obtain ⟨final,names⟩ := ih kept run
      exact ⟨final,by simp [names,placed]⟩

theorem fields_sound (power : minAlign = 0 ∨ ∃ k ≤ 62, minAlign.toNat = 2 ^ k)
    (run : fields structs isUnion minAlign members = .ok (placed,e)) : Regular e ∧ ∃ p,
      members.foldlM (addField structs isUnion) { align := max minAlign 1 } = .ok p ∧ Sound structs isUnion minAlign p ∧
      placed.map (fun f => (f.name,f.type)) = members.map (fun f => (f.name,f.type)) ∧
      placed = p.placed.reverse ∧ e.align = p.align ∧ p.size.toNat + p.align.toNat < 2 ^ 64 ∧
      IsNext p.size.toNat p.align.toNat e.size.toNat := by
  unfold fields at run
  cases laid : members.foldlM (addField structs isUnion) { align := max minAlign 1 } with
  | error fault =>
    rw [laid] at run
    cases run
  | ok p =>
    rw [laid] at run
    cases run
    have start : Sound structs isUnion minAlign { align := max minAlign 1 } := by
      refine ⟨?_,fun some => ?_,Nat.zero_le _,nofun,fun _ => nofun,fun _ => ⟨rfl,Nat.two_pow_pos 63,.nil 0⟩⟩
      · rcases power with rfl | ⟨k,small,is⟩
        · exact ⟨0,by decide,rfl⟩
        · exact ⟨k,small,by rw [max_power is (j := 0) rfl,max_zero]⟩
      · obtain ⟨k,_,is⟩ := power.resolve_left some
        rw [max_power is (j := 0) rfl,max_zero,is]
    obtain ⟨sound,names⟩ := foldlM_sound table start laid
    obtain ⟨k,small,is⟩ := sound.power
    have coarse := Nat.pow_le_pow_right Nat.two_pos small
    have bound := sound.bound
    have room : p.size.toNat + p.align.toNat < 2 ^ 64 := by omega
    have next := alignUp_isNext is room
    refine ⟨⟨k,small,is,is ▸ next.1.2,next.2 ⟨bound,?_⟩⟩,p,rfl,sound,names,rfl,rfl,room,next⟩
    rw [is]
    exact pow_dvd_pow 2 (by omega)

end

theorem Laid.regular (laid : Laid structs) : ∀ sd ∈ structs, sd.defined = true → Regular ⟨sd.size,sd.align⟩ := by
  induction laid with
  | empty => simp
  | declare _ tag isUnion ih =>
    intro sd member
    rcases Array.mem_push.mp member with member | rfl
    · exact ih sd member
    · nofun
  | define _ power run id fields ih =>
    intro sd member defined
    obtain ⟨i,bound,rfl⟩ := Array.getElem_of_mem member
    rw [Array.getElem_modify] at defined ⊢
    split
    · exact (fields_sound ih power run).1
    · next other =>
      rw [if_neg other] at defined
      exact ih _ (Array.getElem_mem _) defined

/-- The layout of members over a table that is laid out itself. -/
theorem members_laid_out (laid : Laid structs) (power : minAlign = 0 ∨ ∃ k ≤ 62, minAlign.toNat = 2 ^ k)
    (run : fields structs isUnion minAlign members = .ok (placed,e)) :
    placed.map (fun f => (f.name,f.type)) = members.map (fun f => (f.name,f.type)) ∧
    (∃ k ≤ 62, e.align.toNat = 2 ^ k) ∧ (minAlign ≠ 0 → minAlign.toNat ∣ e.align.toNat) ∧
    (∀ f ∈ placed, Inside structs e.size e.align f) ∧ (isUnion = true → ∀ f ∈ placed, f.offset = 0) ∧
    ∃ p, members.foldlM (addField structs isUnion) { align := max minAlign 1 } = .ok p ∧
      p.size.toNat + p.align.toNat < 2 ^ 64 ∧ IsNext p.size.toNat e.align.toNat e.size.toNat ∧
      (isUnion = false → Tiles structs 0 placed p.size.toNat) := by
  obtain ⟨_,p,folded,sound,names,rfl,same,room,next⟩ := fields_sound laid.regular power run
  rw [same]
  refine ⟨names,sound.power,sound.least,fun f member => ?_,fun union f member => ?_,p,folded,room,next,
    fun struct => (sound.tiled struct).2.2⟩
  · exact (sound.inside f (mem_reverse.mp member)).mono next.1.1 (Nat.dvd_refl _)
  · exact sound.united union f (mem_reverse.mp member)

def pair : List Field := [{ name := .ident "c", type := .plainChar false },{ name := .ident "l", type := .plainLong }]

def outer : List Field :=
  [{ name := .ident "c", type := .plainChar false },{ name := .ident "a", type := .array (.struct 0 {}) (some 3) {} }]

theorem members_laid_out_nested : ∃ structs placed e, Laid structs ∧
    fields structs false 32 outer = .ok (placed,e) ∧ e.size = 64 ∧ placed.map (·.offset) = [0,8] ∧
      Tiles structs 0 placed 56 := by
  have inner : fields #[{ tag := .ident "s", isUnion := false }] false 0 pair = .ok (_,⟨16,8⟩) := rfl
  have laid := (Laid.empty.declare (.ident "s") false).define (.inl rfl) inner 0 []
  have run : fields #[{ tag := .ident "s", isUnion := false, size := 16, align := 8, defined := true }] false 32
    outer = .ok (_,⟨64,32⟩) := rfl
  obtain ⟨_,_,_,_,_,p,folded,_,_,tiles⟩ := members_laid_out laid (.inr ⟨5,by decide,rfl⟩) run
  cases folded
  exact ⟨_,_,_,laid,run,rfl,rfl,tiles rfl⟩

/-- The size of a type is at most `2 ^ 63`, and only a struct or union can be as large as that. -/
theorem sizes_bounded {ty : CType} (laid : Laid structs) (known : ty.extent? structs = some e) :
    e.size.toNat ≤ 2 ^ 63 ∧ (e.size ≤ maxObjectSize ↔ 0 ≤ e.size.toInt64) ∧
      (maxObjectSize < e.size → ty.isStruct = true ∧ e.size.toNat = 2 ^ 63) := by
  obtain ⟨⟨k,_,_,_,bound⟩,small⟩ := extent?_regular laid.regular known
  have sign : e.size.toInt64.toInt =
      if 2 * e.size.toNat < 2 ^ 64 then (e.size.toNat : Int) else e.size.toNat - (2 ^ 64 : Nat) := BitVec.toInt_eq_toNat_cond _
  have limit : maxObjectSize.toNat = 2 ^ 63 - 1 := rfl
  refine ⟨bound,?_,fun large => ?_⟩
  · rw [UInt64.le_iff_toNat_le,Int64.le_iff_toInt_le,sign,limit]
    have : Int64.toInt 0 = 0 := rfl
    split <;> omega
  · rw [UInt64.lt_iff_toNat_lt,limit] at large
    exact ⟨small.resolve_right (by omega),by omega⟩

/-- A long and characters up to the largest size: rounded up, the struct is one larger. -/
def padded : List Field :=
  [{ name := .ident "x", type := .plainLong },
    { name := .ident "a", type := .array (.plainChar false) (some 0x7FFFFFFFFFFFFFF7) {} }]

theorem padded_laid : ∃ structs, Laid structs ∧ (CType.struct 0 {}).extent? structs = some ⟨0x8000000000000000,8⟩ := by
  have run : fields #[{ tag := .ident "s", isUnion := false }] false 0 padded = .ok (_,⟨0x8000000000000000,8⟩) := rfl
  exact ⟨_,(Laid.empty.declare (.ident "s") false).define (.inl rfl) run 0 [],rfl⟩

theorem sizes_bounded_padded : ∃ structs ty e, Laid structs ∧ CType.extent? structs ty = some e ∧ maxObjectSize < e.size ∧
    ty.isStruct = true ∧ e.size.toNat = 2 ^ 63 := by
  obtain ⟨structs,laid,known⟩ := padded_laid
  exact ⟨structs,_,_,laid,known,by decide,(sizes_bounded laid known).2.2 (by decide)⟩

theorem padded_struct_too_large : ¬∀ structs ty e, Laid structs → CType.extent? structs ty = some e →
    e.size ≤ maxObjectSize ∧ 0 ≤ e.size.toInt64 := by
  intro bounded
  obtain ⟨structs,laid,known⟩ := padded_laid
  exact absurd (bounded structs _ _ laid known) (by decide)

end OnePass.Layout
