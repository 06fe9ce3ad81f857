import OnePass.Proofs.Holdings

/-! # Leaving a block

Whatever is declared in a block, leaving it puts back the bindings that were there when it was entered, and names that
were bound at file scope from inside stay bound. Labels belong to the function and are taken back with it. -/
namespace OnePass.Scope

open List

/-- What is done in a scope, with the labels and the bindings at file scope that it makes, the latest first. Blocks inside
go back to marks that are not below the one at the beginning. -/
inductive Passes (s : Scope) : List EntityId → List ((Namespace × Name) × EntityId) → Scope → Prop
  | refl : Passes s [] [] s
  | push {labels shared t} (run : Passes s labels shared t) (ns : Namespace) (e : Entity) (plain : ns ≠ .label)
      (inside : 0 < t.depth) : Passes s labels shared (t.push ns e).2
  | label {labels shared t} (run : Passes s labels shared t) (e : Entity) :
      Passes s (t.entities.size :: labels) shared (t.push .label e).2
  | pushGlobal {labels shared t} (run : Passes s labels shared t) (ns : Namespace) (e : Entity) :
      Passes s labels (((ns,e.name),t.entities.size) :: shared) (t.pushGlobal ns e).2
  | alloc {labels shared t} (run : Passes s labels shared t) (e : Entity) : Passes s labels shared (t.alloc e).2
  | depth {labels shared t} (run : Passes s labels shared t) (depth : Nat) : Passes s labels shared { t with depth }
  | pop {labels shared t} (run : Passes s labels shared t) (mark : Nat) (above : s.mark ≤ mark) :
      Passes s labels shared (t.popTo mark)

variable {s t u : Scope} {id : EntityId} {ids labels : List EntityId} {e : Entity}

/-! ## One name -/

/-- What a name is bound to when entities, the latest first, give back what they hide. -/
def undone (s : Scope) (v : Name) (now : Option EntityId) (ids : List EntityId) : Option EntityId :=
  ids.foldl (fun now id => if (s.get id).name = v ∧ now = some id then (s.get id).hides else now) now

def idsOf (ns : Namespace) (stack : List (Namespace × EntityId)) : List EntityId :=
  (stack.filter (·.1 = ns)).map (·.2)

theorem lookup_rebind (bindings : List (Name × EntityId)) (name v : Name) (id : Option EntityId) :
    (rebind bindings name id).lookup v = if v = name then id else bindings.lookup v := by
  have others : (bindings.filter (·.1 != name)).lookup v = if v = name then none else bindings.lookup v := by
    induction bindings with
    | nil => simp
    | cons first rest ih => grind
  cases id <;> grind [rebind]

theorem find?_setBindings (s : Scope) (ns other : Namespace) (bindings : List (Name × EntityId)) (v : Name) :
    (s.setBindings ns bindings).find? other v = if other = ns then bindings.lookup v else s.find? other v := by
  cases ns <;> cases other <;> rfl

theorem find?_bindAt (s : Scope) (ns other : Namespace) (e : Entity) (depth : Nat) (v : Name) :
    (s.bindAt ns e depth).2.find? other v =
      if other = ns ∧ v = e.name then some s.entities.size else s.find? other v := by
  rw [bindAt,find?_setBindings,lookup_rebind]
  cases ns <;> cases other <;> simp [find?,bindings]

theorem find?_push (s : Scope) (ns other : Namespace) (e : Entity) (v : Name) : (s.push ns e).2.find? other v =
    if other = ns ∧ v = e.name then some s.entities.size else s.find? other v := by
  rw [← find?_bindAt s ns other e s.depth]
  cases ns <;> simp only [push] <;> (try split) <;> cases other <;> rfl

theorem find?_unbind (s : Scope) (ns other : Namespace) (id : EntityId) (v : Name) :
    (s.unbind ns id).find? other v = if other = ns then s.undone v (s.find? other v) [id] else s.find? other v := by
  simp only [unbind,undone,foldl_cons,foldl_nil,beq_iff_eq]
  split
  · rw [find?_setBindings,lookup_rebind]
    grind [find?]
  · grind

theorem undone_congr (same : ∀ id ∈ ids, t.get id = s.get id) (now : Option EntityId) :
    t.undone v now ids = s.undone v now ids := by
  induction ids generalizing now with
  | nil => rfl
  | cons id ids ih =>
    simp only [undone,foldl_cons,same id mem_cons_self]
    exact ih (fun other member => same other (mem_cons_of_mem _ member)) _

theorem undone_entities (entities : t.entities = s.entities) (now : Option EntityId) :
    t.undone v now ids = s.undone v now ids :=
  undone_congr (fun id _ => by rw [Scope.get,Scope.get,entities]) now

theorem undone_fresh (fresh : id ∉ ids) : s.undone v (some id) ids = some id := by
  induction ids with
  | nil => rfl
  | cons first ids ih =>
    obtain ⟨apart,fresh⟩ := not_or.mp (mem_cons.not.mp fresh)
    rw [undone,foldl_cons,if_neg (by simp [apart])]
    exact ih fresh

theorem find?_unbindAll (s : Scope) (ns : Namespace) (v : Name) (stack : List (Namespace × EntityId)) :
    (s.unbindAll stack).find? ns v = s.undone v (s.find? ns v) (idsOf ns stack) := by
  induction stack generalizing s with
  | nil => rfl
  | cons first rest ih =>
    have entities : (s.unbind first.1 first.2).entities = s.entities := s.unbindAll_entities [first]
    refine (ih (s.unbind first.1 first.2)).trans ?_
    rw [undone_entities entities,find?_unbind]
    by_cases here : first.1 = ns
    · simp [idsOf,here,undone]
    · simp [idsOf,here,Ne.symm here]

/-! ## One namespace -/

/-- Undoing the entities gives the bindings. -/
def Restores (t : Scope) (ns : Namespace) (ids : List EntityId) (bound : Name → Option EntityId) : Prop :=
  (∀ v, t.undone v (t.find? ns v) ids = bound v) ∧ ∀ id ∈ ids, id < t.entities.size

namespace Restores

theorem undo (later : List EntityId) (restores : t.Restores ns (later ++ ids) bound) (entities : u.entities = t.entities)
    (find : ∀ v, u.find? ns v = t.undone v (t.find? ns v) later) : u.Restores ns ids bound := by
  refine ⟨fun v => ?_,fun id member => entities ▸ restores.2 id (mem_append_right _ member)⟩
  rw [find,undone_entities entities,← restores.1,undone,undone,undone,foldl_append]

/-- One more entity changes nothing for those that are there. -/
theorem pushed (restores : t.Restores ns ids bound) (entities : u.entities = t.entities.push e) (v : Name) :
    u.undone v (t.find? ns v) ids = bound v ∧ ∀ id ∈ ids, id < u.entities.size := by
  refine ⟨(undone_congr (fun id member => ?_) _).trans (restores.1 v),fun id member => ?_⟩
  · rw [Scope.get,Scope.get,entities,Array.getElem?_push,if_neg (Nat.ne_of_lt (restores.2 id member))]
  · rw [entities,Array.size_push]
    exact Nat.lt_succ_of_lt (restores.2 id member)

variable {depth : Nat} (restores : t.Restores other ids bound)
  (entities : u.entities = t.entities.push { e with depth, hides := t.find? ns e.name })
  (find : ∀ v, u.find? other v = if other = ns ∧ v = e.name then some t.entities.size else t.find? other v)

include restores entities find

theorem hide : u.Restores other (if other = ns then t.entities.size :: ids else ids) bound := by
  have kept := restores.pushed entities
  by_cases same : other = ns
  · subst same
    rw [if_pos rfl]
    refine ⟨fun v => ?_,forall_mem_cons.mpr ⟨by simp [entities],(kept default).2⟩⟩
    rw [← (kept v).1,find,undone,foldl_cons,get_pushed entities]
    by_cases here : v = e.name
    · simp [here,undone]
    · simp [here,Ne.symm here,undone]
  · rw [if_neg same]
    exact ⟨fun v => by simpa [find,same] using (kept v).1,(kept default).2⟩

theorem share
    (names : ∀ v, new v = if other = ns ∧ v = e.name then some t.entities.size else bound v) : u.Restores other ids new := by
  have kept := restores.pushed entities
  refine ⟨fun v => ?_,(kept default).2⟩
  rw [find,names]
  split
  · exact undone_fresh fun member => Nat.lt_irrefl _ (restores.2 _ member)
  · exact (kept v).1

end Restores

/-! ## Blocks and functions -/

theorem push_stacks (s : Scope) (e : Entity) (plain : ns ≠ .label) (inside : 0 < s.depth) :
    (s.push ns e).2.labelStack = s.labelStack ∧ (s.push ns e).2.blockStack = (ns,s.entities.size) :: s.blockStack := by
  cases ns with
  | label => exact absurd rfl plain
  | _ => simp [push,bindAt,setBindings,inside]

theorem pushGlobal_stacks (s : Scope) (ns : Namespace) (e : Entity) :
    (s.pushGlobal ns e).2.labelStack = s.labelStack ∧ (s.pushGlobal ns e).2.blockStack = s.blockStack := by
  cases ns <;> exact ⟨rfl,rfl⟩

theorem unbindAll_stacks (s : Scope) (stack : List (Namespace × EntityId)) :
    (s.unbindAll stack).labelStack = s.labelStack ∧ (s.unbindAll stack).blockStack = s.blockStack := by
  refine foldlRecOn stack _ (motive := fun t : Scope => t.labelStack = s.labelStack ∧ t.blockStack = s.blockStack)
    ⟨rfl,rfl⟩ fun t kept p _ => ?_
  simp only [unbind]
  split
  · cases p.1 <;> exact kept
  · exact kept

theorem idsOf_label (plain : ∀ p ∈ stack, p.1 ≠ .label) : idsOf .label stack = [] := by
  simpa [idsOf] using plain

theorem idsOf_labels (ns : Namespace) (labels : List EntityId) :
    idsOf ns (labels.map (Namespace.label,·)) = if ns = .label then labels else [] := by
  induction labels with
  | nil => cases ns <;> rfl
  | cons id labels ih => cases ns <;> simp_all [idsOf]

/-- The entities of a namespace that are still to be undone. -/
def pending (ns : Namespace) (labels : List EntityId) (added : List (Namespace × EntityId)) : List EntityId :=
  if ns = .label then labels else idsOf ns added

/-- The bindings of a scope, and those at file scope that were made later. -/
def merged (s : Scope) (shared : List ((Namespace × Name) × EntityId)) (ns : Namespace) (v : Name) : Option EntityId :=
  (shared.lookup (ns,v)).or (s.find? ns v)

theorem Passes.kept (run : Passes s labels shared t) : ∃ added, t.blockStack = added ++ s.blockStack ∧
    (∀ p ∈ added, p.1 ≠ .label) ∧ t.labelStack = labels ++ s.labelStack ∧
      ∀ ns, t.Restores ns (pending ns labels added) (s.merged shared ns) := by
  induction run with
  | refl => exact ⟨[],rfl,nofun,rfl,fun ns => by rw [pending]; exact (ite_self []).symm ▸ ⟨fun v => rfl,nofun⟩⟩
  | @push labels _ t _ ns' e named inside ih =>
    obtain ⟨added,blocks,plain,stack,restores⟩ := ih
    obtain ⟨labelled,grown⟩ := t.push_stacks e named inside
    refine ⟨(ns',t.entities.size) :: added,by rw [grown,blocks,cons_append],
      forall_mem_cons.mpr ⟨named,plain⟩,labelled.trans stack,fun ns => ?_⟩
    have hides := (restores ns).hide (t.push_entities ns' e) (t.find?_push ns' ns e)
    by_cases same : ns = ns'
    · simpa [pending,idsOf,same,named] using hides
    · simpa [pending,idsOf,same,Ne.symm same] using hides
  | @label labels _ t _ e ih =>
    obtain ⟨added,blocks,plain,stack,restores⟩ := ih
    refine ⟨added,blocks,plain,congrArg (_ :: ·) stack,fun ns => ?_⟩
    have hides := (restores ns).hide (t.push_entities .label e) (t.find?_push .label ns e)
    by_cases same : ns = .label <;> simpa [pending,same] using hides
  | @pushGlobal labels shared t _ ns' e ih =>
    obtain ⟨added,blocks,plain,stack,restores⟩ := ih
    obtain ⟨labelled,kept⟩ := t.pushGlobal_stacks ns' e
    refine ⟨added,kept.trans blocks,plain,labelled.trans stack,fun ns => ?_⟩
    refine (restores ns).share (t.pushGlobal_entities ns' e) (t.find?_bindAt ns' ns e 0) fun v => ?_
    by_cases same : ns = ns' ∧ v = e.name
    · simp [merged,same]
    · rw [merged,lookup_cons,beq_false_of_ne (by simpa using same),if_neg same]
      rfl
  | alloc _ e ih =>
    obtain ⟨added,blocks,plain,stack,restores⟩ := ih
    exact ⟨added,blocks,plain,stack,
      fun ns => ⟨fun v => ((restores ns).pushed rfl v).1,((restores ns).pushed rfl default).2⟩⟩
  | depth _ _ ih =>
    obtain ⟨added,blocks,plain,stack,restores⟩ := ih
    exact ⟨added,blocks,plain,stack,fun ns => (restores ns).undo [] rfl fun v => by cases ns <;> rfl⟩
  | @pop labels _ t _ mark above ih =>
    obtain ⟨added,blocks,plain,stack,restores⟩ := ih
    generalize popped : t.blockStack.length - mark = n
    have short : n ≤ added.length := by
      rw [← popped,blocks,length_append]
      exact Nat.sub_le_of_le_add (Nat.add_le_add_left above _)
    have parts ns :
        pending ns labels added = idsOf ns (added.take n) ++ pending ns labels (added.drop n) := by
      by_cases label : ns = .label
      · subst label
        rw [idsOf_label fun p member => plain p (mem_of_mem_take member)]
        rfl
      · simp only [pending,if_neg label,idsOf]
        rw [← map_append,← filter_append,take_append_drop]
    refine ⟨added.drop n,?_,fun p member => plain p (mem_of_mem_drop member),
      (unbindAll_stacks _ _).1.trans stack,fun ns => (parts ns ▸ restores ns).undo _ (unbindAll_entities _ _) fun v => ?_⟩
    · refine (unbindAll_stacks _ _).2.trans ?_
      rw [popped,blocks,drop_append_of_le_length short]
    · rw [popTo,find?_unbindAll,popped,blocks,take_append_of_le_length short]
      cases ns <;> rfl

/-- Leaving a block puts its bindings back, and the end of a function takes back its labels. -/
theorem bindings_restored (run : Passes s labels shared t) :
    (∀ ns v, (t.popTo s.mark).find? ns v =
      if ns = .label then t.find? ns v else (shared.lookup (ns,v)).or (s.find? ns v)) ∧
    (s.labelStack = [] → t.takeLabels.1 = labels.reverse ∧ ∀ ns v, t.takeLabels.2.find? ns v =
      if ns = .label then (shared.lookup (ns,v)).or (s.find? ns v) else t.find? ns v) := by
  obtain ⟨added,blocks,plain,stack,restores⟩ := run.kept
  refine ⟨fun ns v => ?_,fun none => ⟨by rw [takeLabels,stack,none,List.append_nil],fun ns v => ?_⟩⟩
  · have left : (t.popTo s.mark).find? ns v = t.undone v (t.find? ns v) (idsOf ns added) := by
      rw [popTo,find?_unbindAll,blocks,mark,List.length_append,Nat.add_sub_cancel,List.take_left]
      cases ns <;> rfl
    rw [left]
    split
    next label =>
      subst label
      rw [idsOf_label plain]
      rfl
    next other =>
      have restored := (restores ns).1 v
      rwa [pending,if_neg other] at restored
  · rw [takeLabels,find?_unbindAll,stack,none,List.append_nil,idsOf_labels]
    split
    next label =>
      subst label
      exact (restores .label).1 v
    next => cases ns <;> rfl

def named (name : String) : Entity := { name := .ident name, type := .plainInt, storage := .global }

/-- In a block `x` is hidden twice, and `f` is bound at file scope and then hidden. -/
theorem bindings_restored_hidden :
    let s : Scope := { (({} : Scope).push .ident (named "x")).2 with depth := 1 }
    ∃ labels shared t, Passes s labels shared t ∧ s.labelStack = [] ∧ t.find? .ident (.ident "f") = some 3 ∧
      (t.popTo s.mark).find? .ident (.ident "f") = some 2 ∧ (t.popTo s.mark).find? .ident (.ident "x") = some 0 ∧
      t.takeLabels.1 = [4] ∧ t.takeLabels.2.find? .label (.ident "x") = none := by
  intro s
  have run := ((((((Passes.refl (s := s)).push .ident (named "x") nofun (by decide)).pushGlobal .ident (named "f")).push
    .ident (named "f") nofun (by decide)).label (named "x")).push .ident (named "x") nofun (by decide)).pop 2 (by decide)
  obtain ⟨popped,taken⟩ := bindings_restored run
  obtain ⟨ids,labels⟩ := taken rfl
  exact ⟨_,_,_,run,rfl,by decide +kernel,popped _ _,popped _ _,ids,labels _ _⟩

end OnePass.Scope
