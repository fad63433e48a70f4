import PlcLang.Proofs.Debugging.Characters
import PlcLang.Proofs.Debugging.Remarks

/-! How making a note may fail. -/

namespace PlcLang

/-- What making a note may fail with: an integer too long to be shown, a list that is too deep or
contains itself, or a character that holds no text. -/
def Fault.OfNote (P : Json → Prop) (f : Fault) : Prop :=
  f = .longInteger ∨ f = .tooDeep ∨
    f = .unfit .notAText ∧ ∃ content, P content ∧ ∀ text, content ≠ .string text

variable {P : Json → Prop}

/-- A text fails for an integer, for the depth of lists, or for a character. -/
theorem Lists.ofNote_text {lists : Lists}
    (each : ∀ address, ∀ v ∈ lists.elements address, v.Among P) (depth : Nat) {v : Value}
    {f : Fault} (held : v.Among P) (h : lists.text depth v = .error f) : f.OfNote P := by
  induction depth generalizing v with
  | zero =>
    cases v with
    | integer n =>
      simp only [text] at h
      split at h
      · cases h
      · cases h
        exact .inl rfl
    | character content =>
      cases content with
      | string t => cases h
      | _ =>
        cases h
        exact .inr (.inr ⟨rfl, _, held, by simp⟩)
    | list address =>
      cases h
      exact .inr (.inl rfl)
    | _ => cases h
  | succ depth ih =>
    cases v with
    | integer n =>
      simp only [text] at h
      split at h
      · cases h
      · cases h
        exact .inl rfl
    | character content =>
      cases content with
      | string t => cases h
      | _ =>
        cases h
        exact .inr (.inr ⟨rfl, _, held, by simp⟩)
    | list address =>
      simp only [text] at h
      rcases Except.bind_eq_error.1 h with inside | ⟨_, _, h⟩
      · obtain ⟨u, mem, fails⟩ := Except.mapM_eq_error inside
        exact ih (each address u mem) fails
      · cases h
    | _ => cases h

/-- A remark is of the level of its note, and making it fails as texts fail. -/
structure Remark.Made (P : Json → Prop) (r : Remark) : Prop where
  level : ∀ note, r.note = .ok note → note.level = r.level
  fails : ∀ f, r.note = .error f → f.OfNote P

namespace Situation.Among

variable {s : Situation} {output : String} {r : Remark}

theorem remarkOn (h : s.Among P output) {level : Nat} {v : Value} {n : String → Note}
    (held : v.Among P) (levels : ∀ text, (n text).level = level) :
    (s.remarkOn level v n).Made P where
  level note made := by
    obtain ⟨text, _, rfl⟩ := Except.map_eq_ok.1 made
    exact levels text
  fails f fails := Lists.ofNote_text h.store.elements _ held (Except.map_eq_error.1 fails)

theorem selectRemark (h : s.Among P output) {v : Value} {default : Option (Node Label)}
    {cases : List (Node Label)} (held : v.Among P)
    (due : s.selectRemark v default cases = some r) : r.Made P := by
  induction cases generalizing default with
  | nil =>
    cases default with
    | none => cases due
    | some branch =>
      cases due
      exact h.remarkOn held fun _ => rfl
  | cons case rest ih =>
    rw [Situation.selectRemark] at due
    split at due
    · exact ih due
    · cases due

theorem callRemark (h : s.Among P output) {n : Nat} {arguments : List Value}
    (each : ∀ v ∈ arguments, v.Among P) (due : s.callRemark n arguments = some r) : r.Made P := by
  obtain ⟨f, _, rfl⟩ := Option.map_eq_some_iff.1 due
  refine ⟨fun note made => ?_, fun e fails => ?_⟩
  · obtain ⟨texts, _, rfl⟩ := Except.map_eq_ok.1 made
    rfl
  · obtain ⟨v, mem, fails⟩ := Except.mapM_eq_error (Except.map_eq_error.1 fails)
    exact Lists.ofNote_text h.store.elements _ (each v mem) fails

theorem resumeRemark (h : s.Among P output) {v : Value} {frame : Frame} (held : v.Among P)
    (waits : frame.Among P) (due : s.resumeRemark v frame = some r) : r.Made P := by
  unfold Situation.resumeRemark at due
  split at due
  · split at due
    · cases due
      exact h.remarkOn held fun _ => rfl
    · cases due
  · split at due
    · cases due
      exact h.remarkOn held fun _ => rfl
    · cases due
  · split at due
    · cases due
      exact h.remarkOn held fun _ => rfl
    · cases due
  · split at due
    · cases due
      exact h.remarkOn held fun _ => rfl
    · cases due
  · split at due
    · exact h.selectRemark held due
    · cases due
  · split at due
    · cases due
      exact h.remarkOn waits.1 fun _ => rfl
    · exact h.selectRemark waits.1 due
    · cases due
  · cases due

theorem defineRemark {f : Node Label} {env : Env} (due : s.defineRemark f env = some r) :
    r.Made P := by
  unfold Situation.defineRemark at due
  split at due
  · simp only at due
    split at due
    · obtain ⟨_, _, rfl⟩ := Option.map_eq_some_iff.1 due
      refine ⟨fun note made => ?_, fun e fails => ?_⟩
      · cases made
        rfl
      · cases fails
    · cases due
  · cases due

end Situation.Among

/-- Every note that is due is of its level, and fails as texts fail. -/
theorem Machine.Among.remark {m : Machine} (h : m.Among P) {settings : Settings}
    {program : Annotated} (tree : program.tree.AllAmong P) {r : Remark}
    (due : m.remark settings program = some r) : r.Made P := by
  obtain ⟨control, frames, calls, w⟩ := m
  obtain ⟨next, waiting, store⟩ := h
  have among : ∀ K : List Frame, (∀ f ∈ K, f.Among P) →
      Situation.Among P w.output ⟨settings, program, K, calls, w⟩ :=
    fun K waiting => ⟨waiting, store, rfl, tree⟩
  cases control with
  | functions rest env =>
    cases rest with
    | nil => cases due
    | cons f rest => exact Situation.Among.defineRemark due
  | call n arguments => exact (among frames waiting).callRemark next due
  | value v =>
    cases frames with
    | nil => cases due
    | cons frame frames =>
      obtain ⟨waits, others⟩ := List.forall_mem_cons.1 waiting
      exact (among _ others).resumeRemark next waits due
  | _ => cases due

end PlcLang
