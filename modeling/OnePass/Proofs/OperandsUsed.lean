import OnePass.Proofs.OperandsAside

/-! # Operators use their operands

Loading a value, converting it, combining two values, storing and branching: each uses as many operands as
it has and leaves its result. An operand that was pushed is popped exactly when it is used. -/
namespace OnePass

open Value Compile List Compiler

theorem Ready.cons (ready : Ready (n + 1) s) : ∃ v rest, s.values = v :: rest ∧ v.isSpilled = false := by
  have height := ready.height
  cases values : s.values with
  | nil => simp [values] at height
  | cons v rest => exact ⟨v,rest,rfl,by simpa [values] using ready.latest (by omega)⟩

/-- The computation uses `n` operands and leaves `m`. -/
structure Uses (n m : Nat) {α : Type} (x : CompileM α) : Prop where
  run : ∀ {env : Env}, env.Sound → ∀ {s a s'}, Ready n s → x env s = .ok a s' → Effect n m s s'

namespace Uses

variable {α β : Type}

theorem of_same (same : Keeps Same x) : Uses n n x :=
  ⟨fun sound _ _ _ ready run => .of_same (same.run sound run) ready⟩

theorem next (first : Uses n m x) (second : ∀ a, Uses m l (f a)) : Uses n l (x >>= f) := by
  refine ⟨fun sound _ _ _ ready run => ?_⟩
  obtain ⟨a,t,head,tail⟩ := bind_ok.mp run
  have effect := first.run sound ready head
  exact effect.trans ((second a).run sound effect.ready tail)

theorem after (first : Keeps Same x) (second : ∀ a, Uses n m (f a)) : Uses n m (x >>= f) :=
  (of_same first).next second

theorem bind (j : Nat) (first : Uses n (m + 1) x) (second : ∀ a, Uses (j + (m + 1)) l (f a)) :
    Uses (j + n) l (x >>= f) := by
  refine next ⟨fun sound _ _ _ ready run => (first.run sound ?_ run).frame j ready⟩ second
  exact ⟨by have := ready.height; omega,fun pos => ready.latest (by omega),fun code v member =>
    ready.unpushed code v (take_subset_take_left _ (by omega) member)⟩

theorem top (each : ∀ v, v.isSpilled = false → Uses (n + 1) m (f v)) : Uses (n + 1) m (top >>= f) := by
  refine ⟨fun sound s _ _ ready run => ?_⟩
  obtain ⟨v,rest,values,own⟩ := ready.cons
  exact (each _ (by simpa [values] using own)).run sound ready run

theorem second (each : ∀ v, Uses n m (f v)) : Uses n m (second >>= f) :=
  after (by unfold Compile.second; grind) each

theorem fail : Uses n m (fail fault : CompileM α) :=
  ⟨fun _ _ _ _ _ run => by cases run⟩

theorem fail_bind : Uses n m (Compile.fail fault >>= f) :=
  ⟨fun _ _ _ _ _ run => by cases run⟩

theorem pure : Uses n n (Pure.pure a : CompileM α) := of_same (.pure a)

theorem optional [Decidable c] {x : CompileM Unit} {f : Unit → CompileM α} (keeps : Keeps Same x)
    (rest : ∀ u, Uses n m (f u)) : Uses n m (if c then x >>= f else f ()) := by
  split
  · exact after keeps rest
  · exact rest ()

theorem check [Decidable c] (rest : ∀ u, Uses n m (f u)) : Uses n m (if c then Compile.fail fault >>= f else f ()) := by
  split
  · exact fail_bind
  · exact rest ()

theorem loop (each : ∀ a, Uses n n (step a)) (initial : α) : Uses n n (loop initial step) := by
  refine ⟨fun {env} sound s b s' ready run => ?_⟩
  refine iterate_ok (fun _ t => Effect n n s t) (fun _ t => Effect n n s t) (fun a t next t' kept head => ?_)
    env.host.fuel (.of_same (.refl s) ready) run
  have kept := kept.trans ((each a).run sound kept.ready head)
  cases next <;> exact kept

theorem while_ (each : Uses n n step) : Uses n n (while_ step) := by
  refine loop (fun _ => ⟨fun sound s next s' ready run => ?_⟩) ()
  obtain ⟨more,t,first,last⟩ := bind_ok.mp run
  have kept := each.run sound ready first
  cases more <;> cases last <;> exact kept

theorem balanced (uses : Uses 0 0 x) : Keeps Balanced x :=
  ⟨fun sound s _ _ run => (uses.run sound (.none s) run).balanced⟩

end Uses

namespace Compiler

@[simp] theorem emit_frame (s : Compiler) (instr : X86.Instr) : (s.emit instr).values = s.values ∧
    (s.emit instr).noCode = s.noCode ∧ (s.emit instr).noData = s.noData ∧ (s.emit instr).stackDepth = s.stackDepth :=
  have same := s.emit_same instr
  ⟨same.values,same.noCode,same.noData,same.stackDepth⟩

end Compiler

theorem ready_one : Ready 1 s ↔ ∃ v rest, s.values = v :: rest ∧ v.isSpilled = false := by
  refine ⟨Ready.cons,?_⟩
  rintro ⟨v,rest,values,own⟩
  exact ⟨by simp [values],fun _ => by simpa [values] using own,fun _ => by simpa [values] using own⟩

structure Clear (n : Nat) (s : Compiler) : Prop where
  height : n ≤ s.values.length
  unpushed : ∀ v ∈ s.values.take n, v.isSpilled = false

theorem Clear.ready (clear : Clear n s) : Ready n s where
  height := clear.height
  latest pos v latest := by
    apply clear.unpushed
    cases values : s.values with
    | nil => simp [values] at latest
    | cons w rest =>
      obtain ⟨n,rfl⟩ : ∃ k, n = k + 1 := ⟨n - 1,by omega⟩
      simp_all
  unpushed _ := clear.unpushed

theorem Same.clear (same : Same s t) (clear : Clear n s) : Clear n t :=
  ⟨same.values ▸ clear.height,same.values ▸ clear.unpushed⟩

theorem Ready.clear (ready : Ready 1 s) : Clear 1 s := by
  obtain ⟨v,rest,values,own⟩ := ready_one.mp ready
  exact ⟨by simp [values],by simp [values,own]⟩

theorem Clear.exchange (clear : Clear n s) (own : List Value) (unpushed : ∀ v ∈ own, v.isSpilled = false) :
    Effect n own.length s { s with values := own ++ s.values.drop n } := by
  have height := clear.height
  have free : own.countP isSpilled = 0 := countP_eq_zero.mpr fun v member => by simp [unpushed v member]
  have used : (s.values.take n).countP isSpilled = 0 :=
    countP_eq_zero.mpr fun v member => by simp [clear.unpushed v member]
  have split : s.values.countP isSpilled = (s.values.drop n).countP isSpilled := by
    conv_lhs => rw [← take_append_drop n s.values]
    rw [countP_append,used,Nat.zero_add]
  refine ⟨rfl,rfl,by simp; omega,?_,fun _ => by simp,Clear.ready ⟨by simp,by simpa using unpushed⟩,.refl,
    fun _ _ => .refl⟩
  simp only [outgoing,spilled,countP_append,free,split,Nat.zero_add]

namespace Compile

variable {v right left : Value} {env : Env} {place : Place}

/-! ## Pushing and dropping -/

theorem push_uses (own : v.isSpilled = false) : Uses 0 1 (push v) := by
  refine ⟨fun _ s _ _ _ run => ?_⟩
  cases run
  exact Clear.exchange ⟨Nat.zero_le _,by simp⟩ [v] (by simpa using own)

theorem pushConst_uses (type : CType) (value : Int64) : Uses 0 1 (pushConst type value) := push_uses rfl

theorem modifyTop_uses (keeps : ∀ v, v.isSpilled = false → (f v).isSpilled = false) : Uses 1 1 (modifyTop f) := by
  refine ⟨fun _ s _ _ ready run => ?_⟩
  cases run
  obtain ⟨v,rest,values,own⟩ := ready_one.mp ready
  have effect := ready.clear.exchange [f v] (by simpa using keeps v own)
  simpa [values] using effect

theorem rvalue_uses : Uses 1 1 rvalue := modifyTop_uses fun v own => by rwa [isSpilled_decayed]

theorem forget_run (clear : Clear n s) (run : forget n env s = .ok a s') : Effect n 0 s s' := by
  cases run
  exact clear.exchange [] (by simp)

theorem forget_uses : Uses 1 0 (forget 1) := ⟨fun _ _ _ _ ready run => forget_run ready.clear run⟩

theorem replace_run (clear : Clear n s)
    (own : v.isSpilled = false) (run : replace n v env s = .ok a s') : Effect n 1 s s' := by
  cases run
  exact clear.exchange [v] (by simpa using own)

theorem popRegister_run (reg : X86.Reg) (env : Env) (s : Compiler) :
    popRegister reg env s = .ok () (if s.noCode then s
      else { s.emit (.pop reg) with stackDepth := s.stackDepth - 8 }) := by
  cases code : s.noCode <;> simp [popRegister,run_bind,code,emit]

theorem pop_uses : Uses 1 0 pop := by
  refine .top fun v own => forget_uses.next fun _ => ?_
  rw [if_neg (by simpa [isSpilled] using own)]
  exact .pure

theorem dup_uses : Uses 1 2 dup := by
  refine ⟨fun _ s _ _ ready run => ?_⟩
  cases run
  obtain ⟨v,rest,values,own⟩ := ready_one.mp ready
  have effect := ready.clear.exchange [v,v] (by simpa using own)
  simpa [values] using effect

/-! ## Moving operands to the machine stack and back -/

theorem pushRegister_run (reg : X86.Reg) (env : Env) (s : Compiler) :
    pushRegister reg env s = .ok () (if s.noCode then s
      else { s.emit (.push reg) with stackDepth := s.stackDepth + 8 }) := by
  cases code : s.noCode <;> simp [pushRegister,run_bind,code,emit]

theorem countP_spill {values : List Value} (found : values.findIdx? (·.place == .register) = some i) :
    (values.modify i ({ · with place := .spilled })).countP isSpilled =
      values.countP isSpilled + 1 := by
  induction values generalizing i with
  | nil => simp at found
  | cons v rest ih =>
    rw [findIdx?_cons] at found
    split at found
    · next inRegister =>
      cases found
      have before : v.isSpilled = false := by
        simp only [beq_iff_eq] at inRegister
        simp [isSpilled,inRegister]
      rw [countP_cons_of_neg (by simp [before])]
      simp [isSpilled]
    · obtain ⟨k,later,rfl⟩ := Option.map_eq_some_iff.mp found
      simp only [modify_succ_cons,countP_cons,ih later]
      omega

theorem spillBelow_run (keep : Nat) (env : Env) (s : Compiler) : spillBelow keep env s = .ok () s ∨
      ∃ i, s.noCode = false ∧ s.values.findIdx? (·.place == .register) = some i ∧ keep ≤ i ∧
        spillBelow keep env s = .ok ()
          { s.emit (.push .rax) with
            stackDepth := s.stackDepth + 8
            values := s.values.modify i ({ · with place := .spilled }) } := by
  simp only [spillBelow,run_bind,run_get]
  cases code : s.noCode with
  | true => exact .inl rfl
  | false =>
    cases found : s.values.findIdx? (·.place == .register) with
    | none => exact .inl rfl
    | some i =>
      by_cases below : keep ≤ i
      · refine .inr ⟨i,rfl,rfl,below,?_⟩
        simp [below,run_bind,pushRegister_run,code]
      · exact .inl (by simp [below])

theorem spillBelow_uses (kept : n ≤ keep) : Uses n n (spillBelow keep) := by
  refine ⟨fun {env} _ s _ s' ready run => ?_⟩
  rcases spillBelow_run keep env s with idle | ⟨i,code,found,below,pushed⟩
  · cases idle.symm.trans run
    exact .of_same (.refl s) ready
  · cases pushed.symm.trans run
    have count := countP_spill found
    refine ⟨by simp,by simp,by simp,?_,by simp [code],?_,(s.emit_same _).develops,by simp [code]⟩
    · simp only [outgoing,spilled]
      omega
    · refine ⟨by simpa using ready.height,fun pos v latest => ready.latest pos v ?_,by simp [code]⟩
      obtain ⟨k,rfl⟩ : ∃ k, i = k + 1 := ⟨i - 1,by omega⟩
      cases values : s.values with
      | nil => simp [values] at latest
      | cons w rest => simpa [values] using latest

theorem spill_uses : Uses 0 0 spill := spillBelow_uses (Nat.zero_le 0)

/-- What was at a place is taken from the machine stack if it was pushed. -/
structure Taken (pushed : Bool) (s s' : Compiler) : Prop where
  noCode : s'.noCode = s.noCode
  noData : s'.noData = s.noData
  values : s'.values = s.values
  stackDepth : s'.stackDepth = s.stackDepth - if pushed && !s.noCode then 8 else 0
  develops : s.arena.Develops s'.arena
  unevaluated : s.noCode = true → s.noData = true → s.arena.Refers s'.arena

theorem Taken.of_same (same : Same s t) : Taken false s t :=
  { same with stackDepth := by simp [same.stackDepth] }

theorem Taken.trans (first : Taken pushed s t) (second : Same t u) : Taken pushed s u where
  noCode := second.noCode.trans first.noCode
  noData := second.noData.trans first.noData
  values := second.values.trans first.values
  stackDepth := second.stackDepth.trans first.stackDepth
  develops := first.develops.trans second.develops
  unevaluated code data := (first.unevaluated code data).trans
    (second.unevaluated (first.noCode.trans code) (first.noData.trans data))

theorem popRegister_taken (run : popRegister reg env s = .ok a s') : Taken true s s' := by
  rw [popRegister_run] at run
  cases run
  by_cases code : s.noCode = true
  · rw [if_pos code]
    exact ⟨rfl,rfl,rfl,by simp [code],.refl,fun _ _ => .refl⟩
  · rw [if_neg code]
    exact ⟨by simp,by simp,by simp,by simp [code],(s.emit_same _).develops,fun h => absurd h code⟩

@[grind →] theorem Taken.same (taken : Taken false s t) : Same s t :=
  { taken with stackDepth := by simpa using taken.stackDepth }

theorem objectMem_taken (sound : env.Sound)
    (run : objectMem place env s = .ok mem s') : Taken (place == .spilled) s s' := by
  cases place with
  | spilled =>
    obtain ⟨_,t,popped,rest⟩ := bind_ok.mp run
    cases rest
    exact popRegister_taken popped
  | const | frame | symbol | register | indirect =>
    refine .of_same (Keeps.run ?_ sound run)
    unfold objectMem
    grind

theorem loadAddress_taken (sound : env.Sound)
    (run : loadAddress dst place env s = .ok a s') : Taken (place == .spilled) s s' := by
  cases place with
  | spilled => exact popRegister_taken run
  | symbol id addend => exact .of_same ((loadSymbol_keeps dst id addend).run sound run)
  | const | frame | register | indirect => exact .of_same ((emit_keeps _).run sound run)

theorem loadTo_taken (sound : env.Sound) (run : loadTo dst v env s = .ok a s') : Taken v.isSpilled s s' := by
  rw [loadTo] at run
  split at run
  · obtain ⟨mem,t,found,rest⟩ := bind_ok.mp run
    exact (objectMem_taken sound found).trans ((emit_keeps _).run sound rest)
  · exact loadAddress_taken sound run

theorem loadTo_keeps (own : v.isSpilled = false) : Keeps Same (loadTo dst v) :=
  ⟨fun sound _ _ _ run => (own ▸ loadTo_taken sound run).same⟩

theorem loadAddress_keeps (own : (place == .spilled) = false) : Keeps Same (loadAddress dst place) :=
  ⟨fun sound _ _ _ run => (own ▸ loadAddress_taken sound run).same⟩

theorem load_uses : Uses 1 1 load := by
  refine .top fun v own => ?_
  extract_lets aggregate
  split
  · exact .pure
  · refine (spillBelow_uses (Nat.le_refl 1)).next fun _ => .after (loadTo_keeps own) fun _ => ?_
    exact modifyTop_uses fun _ _ => rfl

theorem ready_two (ready : Ready 2 s) :
    ∃ right left rest, s.values = right :: left :: rest ∧ right.isSpilled = false := by
  have height := ready.height
  match values : s.values with
  | [] | [_] => simp [values] at height
  | right :: left :: rest => exact ⟨right,left,rest,rfl,by simpa [values] using ready.latest (by omega)⟩

/-- When the second operand is taken, values that are not pushed may stand for both. -/
theorem Taken.exchange (own : List Value) (unpushed : ∀ v ∈ own, v.isSpilled = false) (ready : Ready 2 s)
    (values : s.values = right :: left :: rest) (latest : right.isSpilled = false)
    (taken : Taken left.isSpilled s t) : Effect 2 own.length s { t with values := own ++ rest } := by
  have free : own.countP isSpilled = 0 := countP_eq_zero.mpr fun v member => by simp [unpushed v member]
  refine ⟨taken.noCode,taken.noData,by simp [values]; omega,?_,fun code => ?_,
    Clear.ready ⟨by simp,by simpa using unpushed⟩,taken.develops,taken.unevaluated⟩
  · simp only [outgoing,spilled,values,taken.stackDepth,countP_append,free,countP_cons,latest]
    cases code : s.noCode with
    | true =>
      have unpushed := ready.unpushed code left (by simp [values])
      simp [unpushed]
    | false => cases left.isSpilled <;> simp; omega
  · simp [values,taken.stackDepth,code]

theorem loadLeft_run (sound : env.Sound) (ready : Ready 2 s) (run : (do
      let left ← second
      if left.place != Place.register || left.lvalue then loadTo .rax left
      modifyTop ({ · with place := .register })
      modifySecond ({ · with place := .register, lvalue := false })) env s = .ok a s') :
    Effect 2 2 s s' ∧ Clear 2 s' := by
  obtain ⟨right,left,rest,values,latest⟩ := ready_two ready
  obtain ⟨_,_,⟨⟩,run⟩ := bind_ok.mp run
  simp only [values,getElem?_cons_succ,getElem?_cons_zero,Option.getD_some] at run
  have settled : ∀ t, Taken left.isSpilled s t → (modifyTop ({ · with place := .register }) >>= fun _ =>
      modifySecond ({ · with place := .register, lvalue := false }) : CompileM Unit) env t = .ok a s' →
      Effect 2 2 s s' ∧ Clear 2 s' := by
    intro t taken run
    cases run
    have effect := taken.exchange [{ right with place := .register },{ left with place := .register, lvalue := false }]
      (by simp [isSpilled]) ready values latest
    simp only [taken.values,values]
    exact ⟨effect,by simp,by simp [isSpilled]⟩
  split at run
  · obtain ⟨_,t,loaded,run⟩ := bind_ok.mp run
    exact settled t (loadTo_taken sound loaded) run
  · next inRegister =>
    have own : left.isSpilled = false := by
      simp only [Bool.or_eq_true,bne_iff_ne,not_or,not_not] at inRegister
      simp [isSpilled,inRegister.1]
    exact settled s (own ▸ .of_same (.refl s)) run

theorem loadBoth_run (sound : env.Sound) (ready : Ready 2 s)
    (run : loadBoth env s = .ok a s') : Effect 2 2 s s' ∧ Clear 2 s' := by
  obtain ⟨_,t,spilled,run⟩ := bind_ok.mp run
  have effect := (spillBelow_uses (Nat.le_refl 2)).run sound ready spilled
  obtain ⟨right,left,rest,values,latest⟩ := ready_two effect.ready
  obtain ⟨_,_,⟨⟩,run⟩ := bind_ok.mp run
  simp only [values] at run
  obtain ⟨u,same,run⟩ : ∃ u, Same t u ∧ _ := by
    split at run
    all_goals obtain ⟨_,u,moved,run⟩ := bind_ok.mp run
    · exact ⟨u,(emit_keeps _).run sound moved,run⟩
    · exact ⟨u,(loadTo_keeps latest).run sound moved,run⟩
  have loaded := loadLeft_run sound (same.ready effect.ready) run
  exact ⟨effect.trans ((Effect.of_same same effect.ready).trans loaded.1),loaded.2⟩

theorem stabilize_uses : Uses 1 1 stabilize := by
  refine .top fun v own => ?_
  extract_lets place
  split
  · refine .after (loadAddress_keeps own) fun _ => .after allocSlot_keeps fun slot => ?_
    exact .after (emit_keeps _) fun _ => modifyTop_uses fun _ _ => rfl
  · exact .pure

/-! ## Conversions -/

theorem castScalar_uses (target : CType) : Uses 1 1 (castScalar target) := by
  refine .top fun v own => ?_
  split
  · exact modifyTop_uses fun _ _ => rfl
  · split
    · exact modifyTop_uses fun _ own => own
    · extract_lets converted
      have convertedUses : ∀ u, Uses 1 1 (converted u) := fun _ => modifyTop_uses fun _ own => own
      split
      · exact load_uses.next fun _ => .after (emit_keeps _) fun _ => .after (emit_keeps _) convertedUses
      · split
        · exact load_uses.next fun _ => .after (convertRegister_keeps _ _ _) convertedUses
        · exact convertedUses ()

theorem castTo_uses (target : CType) : Uses 1 1 (castTo target) := by
  unfold castTo
  split
  · exact modifyTop_uses fun _ own => own
  · refine rvalue_uses.next fun _ => .top fun v own => ?_
    dsimp only
    split
    · exact .fail_bind
    · split
      · split
        · exact modifyTop_uses fun _ own => own
        · exact .fail
      · split
        · exact .fail_bind
        · split
          · exact .fail_bind
          · exact castScalar_uses target

/-! ## Operators -/

theorem modifySecond_uses (keeps : ∀ v, (f v).isSpilled = v.isSpilled) : Uses 2 2 (modifySecond f) := by
  refine ⟨fun _ s _ _ ready run => ?_⟩
  cases run
  obtain ⟨right,left,rest,values,latest⟩ := ready_two ready
  refine ⟨rfl,rfl,by simp ,?_,fun _ => by simp [values],?_,.refl,fun _ _ => .refl⟩
  · simp [outgoing,spilled,values,countP_cons,keeps]
  · refine ⟨by simp [values],fun _ => by simpa [values] using latest,fun code => ?_⟩
    have unpushed := ready.unpushed code
    simpa [values,keeps] using unpushed

theorem const?_isSpilled (found : v.const? = some value) : v.isSpilled = false := by
  cases place : v.place <;> simp [const?,place] at found
  simp [isSpilled,place]

theorem scaled_isSpilled (factor : Int64) (v : Value) : (scaled factor v).isSpilled = v.isSpilled := by
  unfold scaled
  split
  · split
    · next value found => exact (const?_isSpilled found).symm
    · rfl
  · rfl

theorem offsetPlace?_isSpilled (found : offsetPlace? place delta = some moved) :
    (place == .spilled) = false ∧ (moved == .spilled) = false := by
  cases place with
  | symbol id addend =>
    cases found
    exact ⟨rfl,rfl⟩
  | frame offset =>
    simp only [offsetPlace?] at found
    split at found
    · cases found
      exact ⟨rfl,rfl⟩
    · cases found
  | _ => cases found

theorem folded?_isSpilled (found : folded? o left right = some v) :
    left.isSpilled = false ∧ right.isSpilled = false ∧ v.isSpilled = false := by
  have moved : ∀ (w : Value) delta, ((offsetPlace? w.place delta).map fun place => ({ type := o.result, place })) = some v →
      w.isSpilled = false ∧ v.isSpilled = false := by
    intro w delta found
    obtain ⟨place,there,rfl⟩ := Option.map_eq_some_iff.mp found
    exact offsetPlace?_isSpilled there
  rw [folded?] at found
  split at found
  · next a b constLeft constRight =>
    refine ⟨const?_isSpilled constLeft,const?_isSpilled constRight,?_⟩
    simp only [Option.ite_none_left_eq_some] at found
    cases found.2
    rfl
  · next b _ constRight =>
    have own := const?_isSpilled constRight
    split at found
    · cases found
    · split at found
      · exact ⟨(moved _ _ found).1,own,(moved _ _ found).2⟩
      · exact ⟨(moved _ _ found).1,own,(moved _ _ found).2⟩
      · cases found
  · next a constLeft _ =>
    split at found
    · exact ⟨const?_isSpilled constLeft,(moved _ _ found).1,(moved _ _ found).2⟩
    · cases found
  · cases found

structure UsesClear (n m : Nat) {α : Type} (x : CompileM α) : Prop where
  run : ∀ {env : Env}, env.Sound → ∀ {s a s'}, Clear n s → x env s = .ok a s' → Effect n m s s'

namespace UsesClear

theorem after (first : Keeps Same x) (second : ∀ a, UsesClear n m (f a)) : UsesClear n m (x >>= f) := by
  refine ⟨fun sound _ _ _ clear run => ?_⟩
  obtain ⟨a,t,head,tail⟩ := bind_ok.mp run
  have same := first.run sound head
  exact (Effect.of_same same clear.ready).trans ((second a).run sound (same.clear clear) tail)

theorem replace (own : v.isSpilled = false) : UsesClear n 1 (replace n v) :=
  ⟨fun _ _ _ _ clear run => replace_run clear own run⟩

theorem optional [Decidable c] (keeps : Keeps Same x)
    (rest : ∀ u, UsesClear n m (f u)) : UsesClear n m (if c then x >>= f else f ()) := by
  split
  · exact after keeps rest
  · exact rest ()

end UsesClear

theorem loadBoth_uses (rest : UsesClear 2 m (f ())) : Uses 2 m (loadBoth >>= f) := by
  refine ⟨fun sound _ _ _ ready run => ?_⟩
  obtain ⟨_,t,loaded,run⟩ := bind_ok.mp run
  obtain ⟨effect,clear⟩ := loadBoth_run sound ready loaded
  exact effect.trans (rest.run sound clear run)

theorem integerOp_uses (o : IntegerOp) : Uses 2 1 (integerOp o) := by
  refine .second fun l => .top fun r _ => ?_
  refine (modifySecond_uses (scaled_isSpilled _)).next fun _ => ?_
  refine .bind 1 (modifyTop_uses fun v own => by rwa [scaled_isSpilled]) fun _ => ?_
  refine ⟨fun {env} sound s _ s' ready run => ?_⟩
  obtain ⟨right,left,rest,values,-⟩ := ready_two ready
  obtain ⟨_,_,⟨⟩,run⟩ := bind_ok.mp run
  obtain ⟨_,_,⟨⟩,run⟩ := bind_ok.mp run
  have second : s.values[1]?.getD default = left := by simp [values]
  have top : s.values.headD default = right := by simp [values]
  rw [second,top] at run
  cases folded : folded? o left right with
  | some v =>
    rw [folded] at run
    obtain ⟨ownLeft,ownRight,own⟩ := folded?_isSpilled folded
    exact replace_run ⟨ready.height,by simp [values,ownLeft,ownRight]⟩ own run
  | none =>
    rw [folded] at run
    refine Uses.run ?_ sound ready run
    refine .optional (warn_keeps _) fun _ => loadBoth_uses ?_
    refine .optional (emit_keeps _) fun _ => .optional (emit_keeps _) fun _ => ?_
    refine .after (convertRegister_keeps _ _ _) fun _ => .optional (convertRegister_keeps _ _ _) fun _ => ?_
    refine .after (.forM emit_keeps _) fun _ => .optional (convertRegister_keeps _ _ _) fun _ => ?_
    exact .replace rfl

theorem binary_uses (op : BinaryOp) : Uses 2 1 (binary op) := by
  refine .bind 1 rvalue_uses fun _ => ?_
  refine (modifySecond_uses isSpilled_decayed).next fun _ => ?_
  refine .second fun l => .top fun r _ => .check fun _ => .check fun _ => ?_
  split
  · refine .after (elementSize_keeps _) fun size => (integerOp_uses _).next fun _ => ?_
    split
    · exact .bind 1 (pushConst_uses _ _) fun _ => integerOp_uses _
    · exact .pure
  · exact .after (elementSize_keeps _) fun size => integerOp_uses _
  · exact .after (elementSize_keeps _) fun size => integerOp_uses _
  · exact .after (elementSize_keeps _) fun size => integerOp_uses _
  · exact integerOp_uses _
  · split
    · exact integerOp_uses _
    · exact .fail

theorem logicalNot_uses : Uses 1 1 logicalNot := by
  refine .top fun v own => .check fun _ => ?_
  dsimp only
  split
  · exact pop_uses.next fun _ => pushConst_uses _ _
  · refine load_uses.next fun _ => .after (emit_keeps _) fun _ => .after (emit_keeps _) fun _ => ?_
    exact modifyTop_uses fun _ _ => rfl

theorem unary_uses (op : UnaryOp) : Uses 1 1 (unary op) := by
  refine rvalue_uses.next fun _ => .top fun v own => .check fun _ => ?_
  split
  · exact logicalNot_uses
  · refine .check fun _ => ?_
    split
    · exact pop_uses.next fun _ => pushConst_uses _ _
    · refine load_uses.next fun _ => .after (convertRegister_keeps _ _ _) fun _ => ?_
      refine .after (emit_keeps _) fun _ => .after (convertRegister_keeps _ _ _) fun _ => ?_
      exact modifyTop_uses fun _ _ => rfl

/-! ## Storing -/

/-- The two latest operands give way to a value. -/
structure Replaces (x : CompileM Unit) : Prop where
  run : ∀ {env : Env}, env.Sound → ∀ {s a s'}, Ready 1 s → x env s = .ok a s' →
    ∃ v t, v.isSpilled = false ∧ Same s t ∧ replace 2 v env t = .ok a s'

namespace Replaces

theorem replace (own : v.isSpilled = false) : Replaces (replace 2 v) :=
  ⟨fun _ _ _ _ _ run => ⟨v,_,own,.refl _,run⟩⟩

theorem after (first : Keeps Same x) (second : ∀ a, Replaces (f a)) : Replaces (x >>= f) := by
  refine ⟨fun sound _ _ _ ready run => ?_⟩
  obtain ⟨a,t,head,tail⟩ := bind_ok.mp run
  have same := first.run sound head
  obtain ⟨v,u,own,later,run⟩ := (second a).run sound (same.ready ready) tail
  exact ⟨v,u,own,same.trans later,run⟩

theorem top (each : ∀ v, v.isSpilled = false → Replaces (f v)) : Replaces (top >>= f) := by
  refine ⟨fun sound s _ _ ready run => ?_⟩
  obtain ⟨v,rest,values,own⟩ := ready_one.mp ready
  exact (each _ (by simpa [values] using own)).run sound ready run

end Replaces

/-- The place of the second operand is used, and then both give way to a value. -/
structure UsesSecond (left : Value) (x : CompileM Unit) : Prop where
  run : ∀ {env : Env}, env.Sound → ∀ {s a s'}, Ready 2 s → s.values[1]? = some left → x env s = .ok a s' →
    Effect 2 1 s s'

namespace UsesSecond

theorem after (first : Keeps Same x) (second : ∀ a, UsesSecond left (f a)) : UsesSecond left (x >>= f) := by
  refine ⟨fun sound _ _ _ ready there run => ?_⟩
  obtain ⟨a,t,head,tail⟩ := bind_ok.mp run
  have same := first.run sound head
  exact (Effect.of_same same ready).trans ((second a).run sound (same.ready ready) (same.values ▸ there) tail)

theorem take {f : α → CompileM Unit}
    (taken : ∀ {env : Env}, env.Sound → ∀ {s a s'}, x env s = .ok a s' → Taken left.isSpilled s s')
    (rest : ∀ a, Replaces (f a)) : UsesSecond left (x >>= f) := by
  refine ⟨fun sound s _ _ ready there run => ?_⟩
  obtain ⟨right,second,below,values,latest⟩ := ready_two ready
  obtain rfl : second = left := by simpa [values] using there
  obtain ⟨a,t,head,tail⟩ := bind_ok.mp run
  have taken := taken sound head
  obtain ⟨v,u,own,same,run⟩ := (rest a).run sound (ready_one.mpr ⟨right,_,taken.values.trans values,latest⟩) tail
  cases run
  have effect := (taken.trans same).exchange [v] (by simpa using own) ready values latest
  simpa [same.values,taken.values,values] using effect

theorem look (each : ∀ left, UsesSecond left (f left)) : Uses 2 1 (second >>= f) := by
  refine ⟨fun sound s _ _ ready run => ?_⟩
  obtain ⟨right,left,below,values,-⟩ := ready_two ready
  exact (each _).run sound ready (by simp [values]) run

end UsesSecond

theorem storeStruct_uses (type : CType) (size : UInt64) : Uses 2 1 (storeStruct type size) := by
  refine .bind 1 load_uses fun _ => .after (emit_keeps _) fun _ => UsesSecond.look fun left => ?_
  refine .take (loadAddress_taken ·) fun _ => .after (emit_keeps _) fun _ => .after (emit_keeps _) fun _ => ?_
  exact .replace rfl

theorem store_uses : Uses 2 1 store := by
  refine .second fun target => .check fun _ => .check fun _ => ?_
  split
  · refine .top fun v own => .check fun _ => .after .get fun s => ?_
    exact storeStruct_uses _ _
  · refine .bind 1 (castTo_uses _) fun _ => .bind 1 load_uses fun _ => ?_
    refine UsesSecond.look fun left => .take (objectMem_taken ·) fun mem => .after (emit_keeps _) fun _ => ?_
    exact .replace rfl

theorem postIncrement_uses (up : Bool) : Uses 1 1 (postIncrement up) := by
  refine .top fun v own => .check fun _ => .check fun _ => ?_
  extract_lets moved
  have movedUses : ∀ step, Uses 1 1 (moved step) := by
    intro step
    refine stabilize_uses.next fun _ => dup_uses.next fun _ => ?_
    refine .bind 1 load_uses fun _ => UsesSecond.look fun target => ?_
    extract_lets stored
    have storedUses : ∀ u, UsesSecond target (stored u) := by
      intro _
      refine .take (objectMem_taken ·) fun mem => .after (emit_keeps _) fun _ => ?_
      exact .top fun old own => .replace own
    split <;> exact .after (emit_keeps _) storedUses
  split
  · exact .after (elementSize_keeps _) movedUses
  · exact .after (.pure _) movedUses

theorem preIncrement_uses (up : Bool) : Uses 1 1 (preIncrement up) := by
  refine .top fun v own => .check fun _ => stabilize_uses.next fun _ => ?_
  refine dup_uses.next fun _ => .bind 2 (pushConst_uses _ _) fun _ => ?_
  exact .bind 1 (binary_uses _) fun _ => store_uses

/-! ## Members, addresses and conditions -/

theorem member_uses (field : Field) : Uses 1 1 (member field) := by
  have selected : Uses 1 1 (modifyTop fun v =>
      { v with
        type := field.type.withQuals { field.type.quals with isConst := field.type.quals.isConst || v.type.isConst }
        lvalue := true }) := modifyTop_uses fun _ own => own
  refine .top fun v own => ?_
  split
  · next place found =>
    refine (modifyTop_uses fun w _ => ?_).next fun _ => selected
    cases was : v.place <;> simp only [was] at found <;> cases found <;> rfl
  · refine load_uses.next fun _ => ?_
    split
    · exact .after (emit_keeps _) fun _ => selected
    · exact selected

theorem deref_uses : Uses 1 1 deref := by
  refine rvalue_uses.next fun _ => .top fun v own => ?_
  have pointed : ∀ target, Uses 1 1 (modifyTop ({ · with type := target, lvalue := true })) :=
    fun target => modifyTop_uses fun _ own => own
  split
  · exact .fail
  · refine .check fun _ => ?_
    split
    · exact load_uses.next fun _ => pointed _
    · exact pointed _

theorem addressOf_uses : Uses 1 1 addressOf := by
  refine .top fun v own => .check fun _ => ?_
  exact modifyTop_uses fun _ own => own

theorem convertTo_uses (target : CType) : Uses 1 1 (convertTo target) := by
  refine rvalue_uses.next fun _ => .top fun v own => .after settings_keeps fun _ => ?_
  extract_lets converted
  have convertedUses : ∀ u, Uses 1 1 (converted u) := by
    intro _
    unfold converted
    split
    · exact castTo_uses _
    · exact .pure
  split
  · exact convertedUses ()
  · exact .after (warn_keeps _) convertedUses
  · exact .fail_bind

theorem branch_uses (wanted : Bool) : Uses 1 0 (branch wanted) := by
  refine rvalue_uses.next fun _ => .top fun v own => .check fun _ => ?_
  split
  · refine pop_uses.next fun _ => ?_
    split
    · exact .of_same jump_keeps
    · exact .pure
  · refine load_uses.next fun _ => .after (emit_keeps _) fun _ => pop_uses.next fun _ => ?_
    exact .of_same (jumpIf_keeps _)

theorem truthOf_uses (jumps : List Nat) (reached : Bool) : Uses 0 1 (truthOf jumps reached) := by
  refine spill_uses.next fun _ => .after (emit_keeps _) fun _ => .after jump_keeps fun done => ?_
  refine .after (patchHere_keeps _) fun _ => .after (emit_keeps _) fun _ => .after (patchHere_keeps _) fun _ => ?_
  exact push_uses rfl

end Compile
end OnePass
