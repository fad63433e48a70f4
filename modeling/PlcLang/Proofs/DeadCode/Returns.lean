import PlcLang.Proofs.Confinement.Phases
import PlcLang.Proofs.Running.Spans

/-! The way of a `RETURN` out of its function. -/

namespace PlcLang

/-- Statements behind one, or a round of a loop, inside a function. -/
def Frame.isBlock : Frame → Bool
  | .rest .. | .round .. => true
  | _ => false

/-- Where a statement ends, only blocks wait in front of the call of their function. -/
theorem Region.Stack.to_call {R : Region} {o : Arrival} {K : List Frame} (stack : R.Stack o K)
    (outer : R.arrival = .value) (ending : o = .ending) :
    ∃ L k K', K = L ++ .activation k :: K' ∧ ∀ f ∈ L, f.isBlock = true := by
  induction stack with
  | bottom comes =>
    rw [comes, outer] at ending
    cases ending
  | cons inside below ih =>
    cases inside with
    | activation => exact ⟨[], _, _, rfl, List.forall_mem_nil _⟩
    | round | rest =>
      obtain ⟨L, k, K', rfl, blocks⟩ := ih rfl
      exact ⟨_ :: L, k, K', rfl, List.forall_mem_cons.2 ⟨rfl, blocks⟩⟩
    | _ => cases ending

namespace Machine

variable {settings : Settings} {program : Annotated} {env : Env} {m : Machine}

/-- Statements run inside a call. -/
theorem Phase.to_call {s : Store} {statements : List (Node Label)} {inner : Env}
    (h : m.Phase settings env s) (here : m.control = .execute statements inner) :
    ∃ L k K, m.frames = L ++ .activation k :: K ∧ ∀ f ∈ L, f.isBlock = true := by
  cases h with
  | prelude root =>
    rw [here] at root
    cases root
  | inside _ inside =>
    obtain ⟨next, frames, _⟩ := inside
    cases here
    cases next with
    | execute => exact frames.to_call rfl rfl

/-- A value that leaves blocks becomes the value of their call, and nothing else is done. -/
theorem leaves_blocks {v : Value} {k calls : Nat} {L K : List Frame} {w : World}
    {past : List Machine} (blocks : ∀ f ∈ L, f.isBlock = true)
    (run : m.Reaches settings program past ⟨.leave v, L ++ .activation k :: K, calls, w⟩) :
    ∃ between, m.Reaches settings program (between ++ past) ⟨.value v, K, calls - 1, w⟩ ∧
      ∀ q ∈ between, q.control = .leave v := by
  induction L generalizing past with
  | nil => exact ⟨[_], run.step rfl, List.forall_mem_singleton.2 rfl⟩
  | cons f L ih =>
    obtain ⟨block, blocks⟩ := List.forall_mem_cons.1 blocks
    let here : Machine := ⟨.leave v, f :: (L ++ .activation k :: K), calls, w⟩
    have next : here.step settings program =
        .next ⟨.leave v, L ++ .activation k :: K, calls, w⟩ := by
      cases f with
      | rest | round => rfl
      | _ => cases block
    obtain ⟨between, after, leaving⟩ := ih blocks (run.step next)
    refine ⟨between ++ [here], ?_, ?_⟩
    · rwa [List.append_assoc]
    · exact List.forall_mem_append.2 ⟨leaving, List.forall_mem_singleton.2 rfl⟩

/-- The value of a `RETURN` becomes the value of the call around it. -/
theorem returns_value {v : Value} {statements : List (Node Label)} {inner : Env} {k : Nat}
    {L K : List Frame} (blocks : ∀ f ∈ L, f.isBlock = true)
    (control : m.control = .value v)
    (frames : m.frames = .result :: .rest statements inner :: (L ++ .activation k :: K)) :
    ∃ between, m.Reaches settings program (between ++ [m]) ⟨.value v, K, m.calls - 1, m.world⟩ ∧
      ∀ q ∈ between, q.control = .leave v := by
  obtain ⟨_, _, calls, w⟩ := m
  cases control
  cases frames
  have outer : ∀ f ∈ Frame.rest statements inner :: L, f.isBlock = true :=
    List.forall_mem_cons.2 ⟨rfl, blocks⟩
  exact leaves_blocks outer (Reaches.start.step rfl)

end Machine

end PlcLang
