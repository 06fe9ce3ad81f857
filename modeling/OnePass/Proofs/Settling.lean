import OnePass.Preprocess.State
import OnePass.Proofs.Effect

/-! # Computations that come to an end

Loops are bounded by the host's fuel, and lists inside lists by a depth. A computation settles when
from some bound on both make no difference and it does not run out of either: it gives one result, or
one error that it reports. -/
namespace OnePass

/-- How a run ends that ran out of nothing. -/
def Ends (post : α → Preprocessor → Prop) : EStateM.Result Stop Preprocessor α → Prop
  | .ok a pp => post a pp
  | .error (.failed _) _ => True
  | .error .exhausted _ => False

/-- With enough depth and fuel, one and the same end. -/
def Settles (host : Host) (x : Nat → PreM α) (pp : Preprocessor) (post : α → Preprocessor → Prop) : Prop :=
  ∃ bound result, (∀ depth ≥ bound, ∀ fuel ≥ bound, x depth { host with fuel } pp = result) ∧ Ends post result

theorem iterate_run (step : α → PreM (α ⊕ β)) (count : Nat) (a : α) (host : Host) (pp : Preprocessor) :
    iterate step (count + 1) a host pp = match step a host pp with
      | .ok (.inl b) pp' => iterate step count b host pp'
      | .ok (.inr b) pp' => .ok b pp'
      | .error e pp' => .error e pp' := by
  rw [iterate,run_bind]
  cases step a host pp with
  | ok next pp' => cases next <;> rfl
  | error e pp' => rfl

namespace Settles

variable {x : Nat → PreM α}

theorem mono (settles : Settles host x pp post)
    (weaken : ∀ a pp', post a pp' → weaker a pp') : Settles host x pp weaker := by
  obtain ⟨bound,result,same,ends⟩ := settles
  refine ⟨bound,result,same,?_⟩
  cases result with
  | ok a pp' => exact weaken a pp' ends
  | error e pp' =>
    cases e with
    | failed e => trivial
    | exhausted => exact ends

theorem of_ok (run : ∀ depth fuel, x depth { host with fuel } pp = .ok a pp') (holds : post a pp') :
    Settles host x pp post :=
  ⟨0,.ok a pp',fun depth _ fuel _ => run depth fuel,holds⟩

theorem of_failed (run : ∀ depth fuel, x depth { host with fuel } pp = .error (.failed e) pp') :
    Settles host x pp post :=
  ⟨0,.error (.failed e) pp',fun depth _ fuel _ => run depth fuel,trivial⟩

theorem fail (complaint : Complaint) : Settles host (fun _ => (PreM.fail complaint : PreM α)) pp post :=
  of_failed fun _ _ => rfl

theorem fail_bind (complaint : Complaint) (f : Nat → β → PreM α) :
    Settles host (fun depth => PreM.fail complaint >>= f depth) pp post :=
  of_failed fun _ _ => rfl

theorem congr (settles : Settles host x start post)
    (same : ∀ depth fuel, y depth { host with fuel } pp = x depth { host with fuel } start) :
    Settles host y pp post := by
  obtain ⟨bound,result,run,ends⟩ := settles
  exact ⟨bound,result,fun depth deep fuel enough => (same depth fuel).trans (run depth deep fuel enough),ends⟩

theorem bind {f : Nat → α → PreM β} {post : β → Preprocessor → Prop}
    (first : Settles host x pp mid) (later : ∀ a pp', mid a pp' → Settles host (f · a) pp' post) :
    Settles host (fun depth => x depth >>= f depth) pp post := by
  obtain ⟨bound,result,same,ends⟩ := first
  cases result with
  | ok a pp' =>
    obtain ⟨more,final,next,ending⟩ := later a pp' ends
    refine ⟨max bound more,final,fun depth deep fuel enough => ?_,ending⟩
    refine (run_bind _ _ (x depth) (f depth)).trans ?_
    rw [same depth (by omega) fuel (by omega)]
    exact next depth (by omega) fuel (by omega)
  | error e pp' =>
    refine ⟨bound,.error e pp',fun depth deep fuel enough => ?_,?_⟩
    · refine (run_bind _ _ (x depth) (f depth)).trans ?_
      rw [same depth deep fuel enough]
    · cases e with
      | failed e => trivial
      | exhausted => exact ends

theorem read_bind {g : Nat → Host → PreM α} {mid : α → Preprocessor → Prop} {f : Nat → α → PreM β}
    {post : β → Preprocessor → Prop} (first : Settles host (fun depth => read >>= g depth) pp mid)
    (later : ∀ a pp', mid a pp' → Settles host (f · a) pp' post) :
    Settles host (fun depth => read >>= fun here => g depth here >>= f depth) pp post :=
  (first.bind later).congr fun _ _ => rfl

theorem get_bind {f : Nat → Preprocessor → PreM α} (settles : Settles host (fun depth => f depth pp) pp post) :
    Settles host (fun depth => get >>= f depth) pp post :=
  settles.congr fun _ _ => rfl

theorem finishing (settles : Settles host x pp fun a pp' => post a (after pp')) :
    Settles host (fun depth => PreM.finishing (x depth) after) pp post := by
  obtain ⟨bound,result,same,ends⟩ := settles
  cases result with
  | ok a pp' =>
    refine ⟨bound,.ok a (after pp'),fun depth deep fuel enough => ?_,ends⟩
    simp only [PreM.finishing,same depth deep fuel enough]
  | error e pp' =>
    refine ⟨bound,.error e (after pp'),fun depth deep fuel enough => ?_,?_⟩
    · simp only [PreM.finishing,same depth deep fuel enough]
    · cases e with
      | failed e => trivial
      | exhausted => exact ends

theorem deeper (settles : Settles host x pp post) (shift : ∀ depth, y (depth + 1) = x depth) :
    Settles host y pp post := by
  obtain ⟨bound,result,same,ends⟩ := settles
  refine ⟨bound + 1,result,fun depth deep fuel enough => ?_,ends⟩
  obtain ⟨less,rfl⟩ : ∃ less, depth = less + 1 := ⟨depth - 1,by omega⟩
  rw [shift]
  exact same less (by omega) fuel (by omega)

theorem atFuel (settles : Settles host x pp post) : Settles host (fun _ => do x (← read).fuel) pp post := by
  obtain ⟨bound,result,same,ends⟩ := settles
  exact ⟨bound,result,fun _ _ fuel enough => same fuel enough fuel enough,ends⟩

/-- A loop settles when each of its steps does and makes a key smaller in a well-founded order. -/
theorem iterate {κ : Type} {smaller : κ → κ → Prop} (ends : WellFounded smaller) {step : Nat → α → PreM (α ⊕ β)}
    {post : β → Preprocessor → Prop} (keeps : α → Preprocessor → Prop) (key : α → Preprocessor → κ)
    (each : ∀ a pp, keeps a pp → Settles host (step · a) pp fun next pp' =>
      match next with
      | .inl b => keeps b pp' ∧ smaller (key b pp') (key a pp)
      | .inr b => post b pp')
    (start : keeps a pp) :
    Settles host (fun depth => do OnePass.iterate (step depth) (← read).fuel a) pp post := by
  suffices ∀ k a pp, key a pp = k → keeps a pp → ∃ bound result,
      (∀ depth ≥ bound, ∀ fuel ≥ bound, ∀ count ≥ bound,
        OnePass.iterate (step depth) count a { host with fuel } pp = result) ∧ Ends post result by
    obtain ⟨bound,result,same,ends⟩ := this _ a pp rfl start
    exact ⟨bound,result,fun depth deep fuel enough => same depth deep fuel enough fuel enough,ends⟩
  intro k
  induction k using ends.induction with
  | h k ih =>
    rintro a pp rfl holds
    obtain ⟨bound,result,same,ends⟩ := each a pp holds
    simp only at same
    cases result with
    | ok next pp' =>
      cases next with
      | inl b =>
        obtain ⟨more,final,rest,ending⟩ := ih _ ends.2 b pp' rfl ends.1
        refine ⟨max bound more + 1,final,fun depth deep fuel enough count left => ?_,ending⟩
        obtain ⟨less,rfl⟩ : ∃ less, count = less + 1 := ⟨count - 1,by omega⟩
        rw [iterate_run,same depth (by omega) fuel (by omega)]
        exact rest depth (by omega) fuel (by omega) less (by omega)
      | inr b =>
        refine ⟨bound + 1,.ok b pp',fun depth deep fuel enough count left => ?_,ends⟩
        obtain ⟨less,rfl⟩ : ∃ less, count = less + 1 := ⟨count - 1,by omega⟩
        rw [iterate_run,same depth (by omega) fuel (by omega)]
    | error e pp' =>
      refine ⟨bound + 1,.error e pp',fun depth deep fuel enough count left => ?_,?_⟩
      · obtain ⟨less,rfl⟩ : ∃ less, count = less + 1 := ⟨count - 1,by omega⟩
        rw [iterate_run,same depth (by omega) fuel (by omega)]
      · cases e with
        | failed e => trivial
        | exhausted => exact ends

end Settles
end OnePass
