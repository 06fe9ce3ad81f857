import OnePass.Compile.Tokens
import OnePass.Proofs.ExpansionApart

/-! # Tokens that are read again

What was read while tokens were recorded comes once more, and then what comes is what would have come. -/
namespace OnePass.Expand

variable {host : Host} {pp pp' : Preprocessor}

/-- The second state may have frames in between that are read to their end. -/
def Padded (s t : Preprocessor) : Prop := ∃ upper pad lower, (∀ f ∈ pad, f = { tokens := [] }) ∧
  s.frames = upper ++ lower ∧ t = { s with frames := upper ++ (pad ++ lower) }

theorem Abreast.symm {α σ τ : Type} {R : σ → τ → Prop} {l : EStateM.Result Stop σ α}
    {r : EStateM.Result Stop τ α} (abreast : Abreast Eq R l r) :
    Abreast Eq (flip R) r l := by
  cases abreast with
  | ok answers states => exact .ok answers.symm states
  | error states => exact .error states

theorem Abreast.refl {α σ : Type} {R : σ → σ → Prop} (refl : ∀ s, R s s) (result : EStateM.Result Stop σ α) :
    Abreast Eq R result result := by
  cases result
  · exact .ok rfl (refl _)
  · exact .error (refl _)

theorem Padded.refl (pp : Preprocessor) : Padded pp pp := ⟨[],[],pp.frames,by simp,rfl,rfl⟩

theorem padded_joint : Joint Padded Eq where
  refl _ := rfl
  like := .inl
  seen := by
    rintro s _ ⟨upper,pad,lower,plain,eq,rfl⟩
    refine ⟨rfl,rfl,rfl,fun name => ?_⟩
    have visible : (pad.any fun frame => frame.hides == some name) = false := by
      rw [List.any_eq_false]
      intro f member
      simp [plain f member]
    simp [isHidden,eq,visible]
  report := by
    rintro s _ complaint ⟨upper,pad,lower,plain,eq,rfl⟩
    exact ⟨upper,pad,lower,plain,eq,rfl⟩
  count := by
    rintro s _ counter ⟨upper,pad,lower,plain,eq,rfl⟩
    exact ⟨upper,pad,lower,plain,eq,rfl⟩
  frame := by
    rintro s _ frame ⟨upper,pad,lower,plain,eq,rfl⟩
    exact ⟨frame :: upper,pad,lower,plain,congrArg _ eq,rfl⟩
  pushback := by
    rintro s _ a _ ⟨upper,pad,lower,plain,eq,rfl⟩ rfl
    exact ⟨upper,pad,lower,plain,eq,rfl⟩

theorem rawFrom_padded (source : PreM Token) : Matches host Padded Eq (rawFrom source) := by
  rintro s _ ⟨upper,pad,lower,plain,eq,rfl⟩
  have passed : dropFinished (pad ++ lower) = dropFinished lower := by
    clear eq
    induction pad <;> simp_all [dropFinished]
  rw [rawFrom_run,rawFrom_run,eq,dropFinished_split,dropFinished_split,passed]
  cases s.pushback with
  | some tok => exact .ok rfl ⟨upper,pad,lower,plain,rfl,rfl⟩
  | none =>
    cases dropFinished upper with
    | nil => exact .refl Padded.refl _
    | cons first rest =>
      obtain ⟨tokens,hides,barrier⟩ := first
      cases tokens <;> exact .ok rfl ⟨_ :: rest,pad,lower,plain,rfl,rfl⟩

theorem next_padded : Matches host Padded Eq PreM.next :=
  nextFrom_match padded_joint (rawFrom_padded _) fun arg => Match.read.next fun here =>
    listFrom_match _ _ padded_joint.toTogether here.fuel arg

theorem nextFrom_congr {raw : PreM Token} {expandArg : List Token → PreM (List Token)} (fuel : host.fuel ≠ 0)
    (same : raw host pp = raw host pp') : nextFrom raw expandArg host pp = nextFrom raw expandArg host pp' := by
  obtain ⟨count,eq⟩ := Nat.exists_eq_succ_of_ne_zero fuel
  simp only [nextFrom,run_bind,run_read,eq,iterate_run,step,same]

/-- The state that reads some tokens again before it goes on. -/
def replaying (pp : Preprocessor) (tokens : List Token) : Preprocessor := { pp with
  frames := { tokens := tokens.map ({ · with noExpand := true }) ++ pp.pushback.toList } :: pp.frames, pushback := none }

/-- A token that is read again is given as it is. -/
theorem next_replaying (fuel : host.fuel ≠ 0) (pp : Preprocessor) (tok : Token) (tokens : List Token) :
    PreM.next host (replaying pp (tok :: tokens)) = .ok { tok with noExpand := true } (replaying pp tokens) := by
  have raw : rawFrom PreM.fromFiles host (replaying pp (tok :: tokens)) =
      .ok { tok with noExpand := true } (replaying pp tokens) := by
    simp [rawFrom_run,replaying,dropFinished]
  obtain ⟨count,eq⟩ := Nat.exists_eq_succ_of_ne_zero fuel
  simp only [PreM.next,nextFrom,run_bind,run_read,eq,iterate_run,step,raw]
  cases tok.kind <;> rfl

end OnePass.Expand

namespace OnePass.Compile

open Expand

section Steps

variable {σ τ : Type} {step : σ → EStateM.Result Stop σ TokenKind} {other : τ → EStateM.Result Stop τ TokenKind}
  {s : σ} {kinds : List TokenKind}

/-- What comes of step after step. A step that fails gives nothing. -/
inductive Gives (step : σ → EStateM.Result Stop σ TokenKind) : σ → List TokenKind → Prop where
  | stop (s : σ) : Gives step s []
  | token {s kind t kinds} (run : step s = .ok kind t) (more : Gives step t kinds) : Gives step s (kind :: kinds)
  | fault {s e t kinds} (run : step s = .error e t) (more : Gives step t kinds) : Gives step s kinds

theorem gives_ok (run : step s = .ok kind t) :
    Gives step s kinds ↔ kinds = [] ∨ ∃ rest, kinds = kind :: rest ∧ Gives step t rest := by
  constructor
  · rintro (_ | ⟨run',more⟩ | ⟨run',_⟩)
    · exact .inl rfl
    · cases run.symm.trans run'
      exact .inr ⟨_,rfl,more⟩
    · cases run.symm.trans run'
  · rintro (rfl | ⟨rest,rfl,more⟩)
    · exact .stop _
    · exact .token run more

theorem gives_error (run : step s = .error e t) : Gives step s kinds ↔ Gives step t kinds := by
  refine ⟨?_,.fault run⟩
  rintro (_ | ⟨run',_⟩ | ⟨run',more⟩)
  · exact .stop _
  · cases run.symm.trans run'
  · cases run.symm.trans run'
    exact more

theorem gives_congr (same : step s = step t) : Gives step s kinds ↔ Gives step t kinds := by
  cases run : step t with
  | ok => rw [gives_ok run,gives_ok (same.trans run)]
  | error => rw [gives_error run,gives_error (same.trans run)]

theorem gives_abreast {R : σ → τ → Prop} (each : ∀ s t, R s t → Abreast Eq R (step s) (other t)) (related : R s t)
    (gives : Gives step s kinds) : Gives other t kinds := by
  induction gives generalizing t with
  | stop => exact .stop _
  | token run _ ih =>
    have abreast := each _ _ related
    rw [run] at abreast
    generalize run' : other t = result at abreast
    cases abreast with
    | ok answers states => exact answers ▸ .token run' (ih states)
  | fault run _ ih =>
    have abreast := each _ _ related
    rw [run] at abreast
    generalize run' : other t = result at abreast
    cases abreast with
    | error states => exact .fault run' (ih states)

theorem gives_iff {R : σ → τ → Prop} (each : ∀ s t, R s t → Abreast Eq R (step s) (other t)) (related : R s t) :
    Gives step s kinds ↔ Gives other t kinds :=
  ⟨gives_abreast each related,gives_abreast (R := flip R) (fun t s related => (each s t related).symm) related⟩

end Steps

/-- The next token when some are held and the preprocessor gives the others. -/
def ahead (host : Host) : List Token × Preprocessor → EStateM.Result Stop (List Token × Preprocessor) TokenKind
  | (tok :: held,pp) => .ok tok.kind (held,pp)
  | ([],pp) => match PreM.next host pp with
    | .ok tok pp => .ok tok.kind ([],pp)
    | .error e pp => .error e ([],pp)

/-- The token that becomes the current one. -/
def deliver (env : Env) (s : Compiler) : EStateM.Result Stop Compiler TokenKind :=
  match next env s with
  | .ok _ t => .ok t.tok.kind t
  | .error e t => .error e t

variable {host : Host} {env : Env} {pp pp' : Preprocessor} {held : List Token} {kinds : List TokenKind} {s t : Compiler}

theorem ahead_cons (tok : Token) : Gives (ahead host) (tok :: held,pp) kinds ↔
    kinds = [] ∨ ∃ rest, kinds = tok.kind :: rest ∧ Gives (ahead host) (held,pp) rest :=
  gives_ok rfl

theorem ahead_ok (run : PreM.next host pp = .ok tok pp') (held : List Token) :
    Gives (ahead host) (held,pp) kinds ↔ Gives (ahead host) (held ++ [tok],pp') kinds := by
  induction held generalizing kinds with
  | nil => rw [gives_ok (by rw [ahead,run]),List.nil_append,ahead_cons]
  | cons first held ih => simp only [List.cons_append,ahead_cons,ih]

theorem ahead_error (run : PreM.next host pp = .error e pp') (held : List Token) :
    Gives (ahead host) (held,pp) kinds ↔ Gives (ahead host) (held,pp') kinds := by
  induction held generalizing kinds with
  | nil => exact gives_error (by rw [ahead,run])
  | cons first held ih => simp only [ahead_cons,ih]

theorem ahead_padded (padded : Padded pp pp') (held : List Token) :
    Gives (ahead host) (held,pp) kinds ↔ Gives (ahead host) (held,pp') kinds := by
  refine gives_iff (R := fun x y => x.1 = y.1 ∧ Padded x.2 y.2) ?_ ⟨rfl,padded⟩
  rintro ⟨held,pp⟩ ⟨_,pp'⟩ ⟨rfl,padded⟩
  cases held with
  | cons tok held => exact .ok rfl ⟨rfl,padded⟩
  | nil =>
    have abreast : Abreast Eq Padded (PreM.next host pp) (PreM.next host pp') := next_padded pp pp' padded
    simp only [ahead]
    generalize PreM.next host pp = left, PreM.next host pp' = right at abreast
    cases abreast with
    | ok answers states => exact .ok (congrArg _ answers) ⟨rfl,states⟩
    | error states => exact .error ⟨rfl,states⟩

theorem ahead_replaying (fuel : host.fuel ≠ 0) (held : List Token) :
    Gives (ahead host) ([],replaying pp held) kinds ↔ Gives (ahead host) (held,pp) kinds := by
  induction held generalizing kinds with
  | nil =>
    have padded : Padded pp { pp with frames := { tokens := [] } :: pp.frames } := ⟨[],[_],_,by simp,rfl,rfl⟩
    refine ((ahead_padded padded []).trans (gives_congr ?_)).symm
    have raw : rawFrom PreM.fromFiles host { pp with frames := { tokens := [] } :: pp.frames } =
        rawFrom PreM.fromFiles host (replaying pp []) := by
      cases back : pp.pushback <;> simp [rawFrom_run,dropFinished,replaying,back]
    simp only [ahead,PreM.next,nextFrom_congr fuel raw]
  | cons tok held ih =>
    rw [gives_ok (by rw [ahead,next_replaying fuel]),ahead_cons]
    simp only [ih]

theorem fetch_run (env : Env) (s : Compiler) : fetch env s = match PreM.next env.host s.pre with
    | .ok tok pre => .ok tok { s with pre, recording := s.recording.map (tok :: ·) }
    | .error e pre => .error e { s with pre } := by
  simp only [fetch,preprocess,run_bind]
  cases PreM.next env.host s.pre <;> rfl

theorem next_run (env : Env) (s : Compiler) : next env s = match s.peeked with
    | some tok => .ok ⟨⟩ { s with tok, peeked := none }
    | none => match PreM.next env.host s.pre with
      | .ok tok pre => .ok ⟨⟩ { s with pre, tok, recording := s.recording.map (tok :: ·) }
      | .error e pre => .error e { s with pre } := by
  simp only [next,run_bind,run_get]
  cases peeked : s.peeked with
  | some tok => rfl
  | none =>
    simp only [fetch_run,run_bind,peeked]
    cases PreM.next env.host s.pre <;> rfl

theorem deliver_iff : Gives (deliver env) s kinds ↔ Gives (ahead env.host) (s.peeked.toList,s.pre) kinds := by
  refine gives_iff (R := fun s x => x = (s.peeked.toList,s.pre)) ?_ rfl
  rintro s _ rfl
  rw [deliver,next_run]
  cases peeked : s.peeked with
  | some tok => exact .ok rfl rfl
  | none =>
    simp only [Option.toList,ahead]
    cases PreM.next env.host s.pre
    · exact .ok rfl (by simp)
    · exact .error (by simp)

/-- A call that looks at the input. -/
inductive Look where
  | next
  | peek

/-- The state behind a call, whether it fails or not. -/
def Look.run (env : Env) (s : Compiler) : Look → Compiler
  | .next => match Compile.next env s with | .ok _ t | .error _ t => t
  | .peek => match Compile.peek env s with | .ok _ t | .error _ t => t

/-- The tokens recorded since a state, and those still to come, are what it delivers behind its current token. -/
def Records (env : Env) (s : Compiler) (pp : Preprocessor) (recording : Option (List Token)) : Prop :=
  ∃ held, recording = some (held.reverse ++ [s.tok]) ∧
    ∀ kinds, Gives (ahead env.host) (held,pp) kinds ↔ Gives (deliver env) s kinds

theorem Records.look (records : Records env s t.pre t.recording) (call : Look) :
    Records env s (call.run env t).pre (call.run env t).recording := by
  obtain ⟨held,recorded,gives⟩ := records
  have fetched (pp : Preprocessor) (tok : Token) (read : PreM.next env.host t.pre = .ok tok pp) :
      Records env s pp (t.recording.map (tok :: ·)) :=
    ⟨held ++ [tok],by simp [recorded],fun kinds => (ahead_ok read held).symm.trans (gives kinds)⟩
  have failed (pp : Preprocessor) (e : Stop) (read : PreM.next env.host t.pre = .error e pp) :
      Records env s pp t.recording :=
    ⟨held,recorded,fun kinds => (ahead_error read held).symm.trans (gives kinds)⟩
  cases call with
  | next =>
    rw [Look.run,next_run]
    cases t.peeked with
    | some tok => exact ⟨held,recorded,gives⟩
    | none =>
      cases read : PreM.next env.host t.pre with
      | ok tok pp => exact fetched pp tok read
      | error e pp => exact failed pp e read
  | peek =>
    simp only [Look.run,peek,run_bind,run_get]
    cases peeked : t.peeked with
    | some tok => exact ⟨held,recorded,gives⟩
    | none =>
      simp only [fetch_run,run_bind]
      cases read : PreM.next env.host t.pre with
      | ok tok pp => exact fetched pp tok read
      | error e pp => exact failed pp e read

/-- Tokens that are recorded and read again come as if they had not been: behind the token that was current the same
kinds of tokens are delivered, and none of those recorded is expanded once more. -/
theorem replay_transparent (fuel : env.host.fuel ≠ 0) (s : Compiler) (calls : List Look) : ∃ began tokens ended u,
    startRecording env s = .ok ⟨⟩ began ∧ stopRecording env (calls.foldl (Look.run env) began) = .ok tokens ended ∧
    rewind tokens env ended = .ok ⟨⟩ u ∧ u.tok.kind = s.tok.kind ∧
    (∀ kinds, Gives (deliver env) u kinds ↔ Gives (deliver env) s kinds) ∧
    u.pre = replaying ended.pre tokens.tail ∧ ∀ tok rest, PreM.next env.host (replaying ended.pre (tok :: rest)) =
      .ok { tok with noExpand := true } (replaying ended.pre rest) := by
  have records : ∀ t : Compiler, Records env s t.pre t.recording →
      Records env s (calls.foldl (Look.run env) t).pre (calls.foldl (Look.run env) t).recording := by
    induction calls with
    | nil => exact fun _ => id
    | cons call rest ih => exact fun t records => ih _ (records.look call)
  obtain ⟨held,recorded,gives⟩ := records { s with recording := some (s.peeked.toList ++ [s.tok]) }
    ⟨s.peeked.toList,by cases s.peeked <;> rfl,fun _ => deliver_iff.symm⟩
  generalize reached : calls.foldl (Look.run env) _ = t at recorded gives
  have rewound : rewind (s.tok :: held) env { t with recording := none } = .ok ⟨⟩ { t with
      pre := replaying t.pre held, tok := { s.tok with noExpand := true }, peeked := none, recording := none } := by
    simp only [rewind,preprocess,run_bind,run_modify,next_run]
    rw [show Expand.replay (s.tok :: held) env.host t.pre = .ok ⟨⟩ (replaying t.pre (s.tok :: held)) from rfl]
    simp only [next_replaying fuel]
    rfl
  refine ⟨_,_,_,_,rfl,?_,rewound,rfl,fun kinds => ?_,rfl,next_replaying fuel _⟩
  · rw [reached]
    simp [stopRecording,recorded]
  · rw [deliver_iff]
    exact (ahead_replaying fuel held).trans (gives kinds)

def quiet : Env := { host := { fuel := 3 }, settings := {}, solve _ := throw .exhausted }

/-- A name that would be expanded with arguments, and another behind it. -/
def called : Compiler :=
  let frame : Frame := { tokens := [{ opening with kind := .ident "f" },{ opening with kind := .ident "x" }] }
  { pre := { alone with frames := [frame] }, arena := Elf.Arena.initial, text := Elf.Arena.initial.text }

/-- The expander has looked for arguments and has put a token back when the recording ends. -/
theorem replay_transparent_pushback : quiet.host.fuel ≠ 0 ∧
    let looked := Look.run quiet { called with recording := some [called.tok] } .next
    looked.pre.pushback.isSome = true ∧ ∃ tokens ended u, stopRecording quiet looked = .ok tokens ended ∧
      rewind tokens quiet ended = .ok ⟨⟩ u ∧ Gives (deliver quiet) u [.ident "f",.ident "x"] := by
  obtain ⟨_,_,_,_,⟨⟩,stopped,rewound,_,same,_⟩ := replay_transparent (show quiet.host.fuel ≠ 0 by decide) called [.next]
  exact ⟨by decide,by decide +kernel,_,_,_,stopped,rewound,(same _).mpr (.token rfl (.token rfl (.stop _)))⟩

end OnePass.Compile
