import PlcLang.Proofs.Debugging.Failures
import PlcLang.Proofs.Debugging.Rules
import PlcLang.Proofs.Running.History

/-! Runs at a debug level beside those that make no notes. -/

namespace PlcLang

namespace Remark

variable {level : Nat} {r : Remark} {rs : List Remark}

theorem notes_skip {due : Option Remark} (quiet : ∀ r ∈ due, level < r.level) :
    notes level (due.toList ++ rs) = notes level rs := by
  cases due with
  | none => rfl
  | some r =>
    have low : ¬ r.level ≤ level := Nat.not_le.2 (quiet r rfl)
    simp [notes, low]

theorem notes_cons (loud : r.level ≤ level) :
    notes level ((some r).toList ++ rs) =
      (r.note >>= fun note => (notes level rs).map (note :: ·)) := by
  simp only [notes, Option.toList_some, List.singleton_append, List.filter_cons, loud, decide_true,
    ↓reduceIte, List.mapM_cons]
  rfl

/-- The notes made at a level are those made at a higher one that are of that level. -/
theorem notes_lower {P : Json → Prop} {low high : Nat} {notes : List Note} (below : low ≤ high)
    (each : ∀ r ∈ rs, r.Made P) (made : Remark.notes high rs = .ok notes) :
    Remark.notes low rs = .ok (notes.filter (·.level ≤ low)) := by
  induction rs generalizing notes with
  | nil =>
    cases made
    rfl
  | cons r rs ih =>
    obtain ⟨first, others⟩ := List.forall_mem_cons.1 each
    by_cases loud : r.level ≤ high
    · have made : Remark.notes high ((some r).toList ++ rs) = .ok notes := made
      rw [notes_cons loud] at made
      obtain ⟨note, here, made⟩ := Except.bind_eq_ok.1 made
      obtain ⟨later, behind, rfl⟩ := Except.map_eq_ok.1 made
      have rest := ih others behind
      change Remark.notes low ((some r).toList ++ rs) = _
      by_cases low' : r.level ≤ low
      · rw [notes_cons low', here, List.filter_cons_of_pos (by simpa [first.level note here])]
        exact Except.map_eq_ok.2 ⟨_, rest, rfl⟩
      · rw [notes_skip fun r' h => by cases h; exact Nat.not_le.1 low', rest,
          List.filter_cons_of_neg (by simpa [first.level note here] using low')]
    · have skipped : ∀ level', level' ≤ high →
          Remark.notes level' (r :: rs) = Remark.notes level' rs := fun level' h =>
        notes_skip fun r' (same : some r = some r') => by cases same; omega
      rw [skipped high (Nat.le_refl high)] at made
      rw [skipped low below]
      exact ih others made

end Remark

variable {P : Json → Prop} {settings : Settings} {program : Annotated} {level : Nat}

/-- A run goes on from wherever it comes. -/
theorem Machine.Reaches.run {m₀ m : Machine} {past : List Machine} {steps : Nat} {w : World}
    {result : Except Fault Value} (reached : m₀.Reaches settings program past m)
    (ends : Machine.run settings program steps m₀ = some (w, result)) :
    ∃ steps', Machine.run settings program steps' m = some (w, result) := by
  induction reached with
  | start => exact ⟨steps, ends⟩
  | step before next ih =>
    obtain ⟨steps', ends⟩ := ih
    cases steps' with
    | zero => cases ends
    | succ steps' =>
      rw [Machine.run, next] at ends
      exact ⟨steps', ends⟩

/-- A run comes to the same kind of characters only. -/
theorem Machine.Among.reaches (tree : program.tree.AllAmong P) {m₀ m : Machine}
    {past : List Machine} (h : m₀.Among P) (reached : m₀.Reaches settings program past m) :
    m.Among P := by
  induction reached with
  | start => exact h
  | step before next ih =>
    have step : (Machine.step settings program _).Extends P _ := ih.step tree
    rw [next] at step
    exact step.1

theorem Machine.Among.remarks (tree : program.tree.AllAmong P) {steps : Nat} {m : Machine}
    (h : m.Among P) : ∀ r ∈ m.remarks settings program steps, r.Made P := by
  induction steps generalizing m with
  | zero => simp [Machine.remarks]
  | succ steps ih =>
    have step : (m.step settings program).Extends P m.world.output := h.step tree
    intro r mem
    rw [Machine.remarks, List.mem_append] at mem
    rcases mem with here | later
    · exact h.remark tree (Option.mem_toList.1 here)
    · split at later
      · rename_i m' next
        rw [next] at step
        exact ih step.1 r later
      · cases later

/-- What a run has printed stays printed. -/
theorem Machine.Among.run (tree : program.tree.AllAmong P) {steps : Nat} {m : Machine}
    (h : m.Among P) {w : World} {result : Except Fault Value}
    (ends : Machine.run settings program steps m = some (w, result)) :
    ∃ text, w.output = m.world.output ++ text := by
  induction steps generalizing m with
  | zero => cases ends
  | succ steps ih =>
    have step : (m.step settings program).Extends P m.world.output := h.step tree
    rw [Machine.run] at ends
    split at ends
    · rename_i m' next
      rw [next] at step
      obtain ⟨among, text, printed⟩ := step
      obtain ⟨more, printed'⟩ := ih among ends
      exact ⟨text ++ more, by rw [printed', printed, String.append_assoc]⟩
    · rename_i w' r halts
      rw [halts] at step
      cases ends
      exact step

/-- While no note fails, a run that makes notes comes to the same as one that makes none. -/
theorem Machine.run_watched (quiet : settings.debug = 0) {steps : Nat} {m : Machine}
    (before : Array Note) {notes : List Note}
    (made : Remark.notes level (m.remarks settings program steps) = .ok notes) :
    Machine.run { settings with debug := level } program steps (m.withNotes before) =
      (Machine.run settings program steps m).map fun (w, result) =>
        (w.withNotes (before ++ notes.toArray), result) := by
  induction steps generalizing m before notes with
  | zero => rfl
  | succ steps ih =>
    have step : Step.Watched level before m.world.output (m.remark settings program)
        (m.step settings program)
        ((m.withNotes before).step { settings with debug := level } program) :=
      m.step_watched quiet
    rw [Machine.remarks] at made
    rw [Machine.run, Machine.run]
    generalize m.remark settings program = due at step made
    generalize (m.withNotes before).step { settings with debug := level } program = seen at step ⊢
    cases step with
    | unnoted quiet =>
      rw [Remark.notes_skip quiet] at made
      cases plain : m.step settings program with
      | next m' =>
        rw [plain] at made
        exact ih before made
      | halt w result =>
        rw [plain] at made
        cases made
        simp [Step.withNotes]
    | @noted r note _ loud here =>
      rw [Remark.notes_cons loud, here] at made
      obtain ⟨later, behind, rfl⟩ := Except.map_eq_ok.1 made
      have joined : before ++ (note :: later).toArray = before.push note ++ later.toArray := by simp
      rw [joined]
      cases plain : m.step settings program with
      | next m' =>
        rw [plain] at behind
        exact ih _ behind
      | halt w result =>
        rw [plain] at behind
        cases behind
        simp [Step.withNotes]
    | failed loud fails silent =>
      rw [Remark.notes_cons loud, fails] at made
      cases made

/-- A run that makes notes ends with the first that fails, and has printed what a run that makes none
prints up to there. -/
theorem Machine.run_failed (quiet : settings.debug = 0) (tree : program.tree.AllAmong P)
    {steps : Nat} {m₀ m : Machine} {past : List Machine} (h : m.Among P)
    (reached : m₀.Reaches settings program past m) (before : Array Note) {f : Fault}
    (fails : Remark.notes level (m.remarks settings program steps) = .error f) :
    f.OfNote P ∧ ∃ w past' m',
      Machine.run { settings with debug := level } program steps (m.withNotes before) =
        some (w, .error f) ∧
      m₀.Reaches settings program past' m' ∧ w.output = m'.world.output := by
  induction steps generalizing m before past with
  | zero => cases fails
  | succ steps ih =>
    have step : Step.Watched level before m.world.output (m.remark settings program)
        (m.step settings program)
        ((m.withNotes before).step { settings with debug := level } program) :=
      m.step_watched quiet
    have made : ∀ r ∈ m.remark settings program, r.Made P := fun r due => h.remark tree due
    have goes : (m.step settings program).Extends P m.world.output := h.step tree
    rw [Machine.remarks] at fails
    rw [Machine.run]
    generalize m.remark settings program = due at step made fails
    generalize (m.withNotes before).step { settings with debug := level } program = seen at step ⊢
    cases step with
    | unnoted quiet =>
      rw [Remark.notes_skip quiet] at fails
      cases plain : m.step settings program with
      | next m' =>
        rw [plain] at fails goes
        exact ih goes.1 (reached.step plain) _ fails
      | halt w result =>
        rw [plain] at fails
        cases fails
    | noted loud here =>
      rw [Remark.notes_cons loud, here] at fails
      have fails := Except.map_eq_error.1 fails
      cases plain : m.step settings program with
      | next m' =>
        rw [plain] at fails goes
        exact ih goes.1 (reached.step plain) _ fails
      | halt w result =>
        rw [plain] at fails
        cases fails
    | failed loud here silent =>
      rw [Remark.notes_cons loud, here] at fails
      cases fails
      exact ⟨(made _ rfl).fails _ here, _, past, m, rfl, reached, silent⟩

end PlcLang
