import Mathlib.Data.List.Pairwise
import PlcLang.Proofs.Relocation.Checker
import PlcLang.Proofs.Running.Start

namespace PlcLang

/-- A program that a session has taken up. Its nodes have the labels from the first one on. -/
structure Source where
  program : Node Unit
  first : Label

/-- Numbers below a size are moved up by as much as the first one, all others farther up. -/
theorem spread_injective (first size beyond : Nat) :
    Function.Injective fun l => if l < size then first + l else first + size + beyond + l := by
  intro l m same
  dsimp only at same
  split at same <;> split at same <;> omega

theorem spread_lt {first size beyond bound : Nat} (inside : first + size ≤ bound)
    (room : bound ≤ beyond) (l : Nat) :
    (if l < size then first + l else first + size + beyond + l) < bound ↔ l < size := by
  split <;> omega

theorem spread_ne {first size beyond bound first' size' : Nat}
    (apart : first + size ≤ first' ∨ first' + size' ≤ first) (inside : first' + size' ≤ bound)
    (room : bound ≤ beyond) (l : Nat) {l' : Nat} (lt : l' < size') :
    (if l < size then first + l else first + size + beyond + l) ≠ first' + l' := by
  split <;> omega

namespace Source

def tree (source : Source) : Node Label :=
  (source.program.withLabels source.first).1

/-- The number of labels. -/
def size (source : Source) : Nat :=
  (source.program.withLabels 0).2

/-- The label behind the last one. -/
def bound (source : Source) : Label :=
  source.first + source.size

/-- What comes of the program on its own is here with its labels from the first one on, found in the
check with a number, and behind what is in a store. Labels that the program does not have are
moved `beyond`, out of the way. -/
def relocation (source : Source) (number beyond : Nat) (base : Store) : Relocation where
  label l := if l < source.size then source.first + l else source.bound + beyond + l
  injective := spread_injective source.first source.size beyond
  checks := number
  base := base

end Source

/-- A check of a tree by itself. What is found in it stays known, whatever it comes to. -/
def Session.analyze (s : Session) (tree : Node Label) : Session × Except Fault Context :=
  let (outcome, found) := (Annotated.mk tree s.found).check s.checks []
  ({ s with checks := s.checks + 1, found := found }, outcome)

/-- What a session has been through that runs programs by themselves: in any order, programs are
taken up, checked by themselves, and run in new blocks, each any number of times. It does not
matter what a check or a run comes to. Of the programs taken up, some have been analyzed. -/
inductive Session.Past : List Source → List Source → Session → Prop where
  | start : Past [] [] .start
  | load {sources analyzed : List Source} {s : Session} (past : Past sources analyzed s)
      (n : Node Unit) : Past (⟨n, s.found.size⟩ :: sources) analyzed (s.load n).1
  | analyze {sources analyzed : List Source} {s : Session} {source : Source}
      (past : Past sources analyzed s) (mem : source ∈ sources) :
      Past sources (source :: analyzed) (s.analyze source.tree).1
  | run {sources analyzed : List Source} {s : Session} {source : Source}
      (past : Past sources analyzed s) (mem : source ∈ analyzed) (settings : Settings)
      (steps : Nat) :
      Past sources analyzed (s.perform settings steps .fresh false source.tree).1
  | perform {sources analyzed : List Source} {s : Session} {source : Source}
      (past : Past sources analyzed s) (mem : source ∈ sources) (settings : Settings)
      (steps : Nat) :
      Past sources (source :: analyzed) (s.perform settings steps .fresh true source.tree).1

/-- Nothing is known of a node that a check of the program on its own does not find. -/
structure Annotation.Covers (a b : Annotation) : Prop where
  type : a.type = none → b.type = none
  binding : a.binding = none → b.binding = none
  signature : a.signature = none → b.signature = none

theorem Annotation.orElse_of_covers {r : Relocation} {a old : Annotation} (h : a.Covers old) :
    (a.relocate r).orElse old = a.relocate r := by
  obtain ⟨type, binding, signature⟩ := h
  simp only [orElse, relocate, mk.injEq]
  refine ⟨?_, ?_, ?_⟩
  · cases given : a.type with
    | none => exact type given
    | some t => rfl
  · cases given : a.binding with
    | none => exact binding given
    | some b => rfl
  · cases given : a.signature with
    | none => exact signature given
    | some f => rfl

theorem Annotation.covers_relocate {r : Relocation} (a : Annotation) :
    a.Covers (a.relocate r) :=
  ⟨id, fun none => by rw [relocate, none]; rfl, fun none => by rw [relocate, none]; rfl⟩

section

variable {n : Node Unit} {source : Source} {s : Session} {beyond : Nat} {base : Store}

/-- The tree of a program that was taken up is that of the program on its own, with other labels. -/
theorem Source.tree_relocate (source : Source) (number beyond : Nat) (base : Store) :
    source.tree =
      (source.program.annotated #[]).tree.map (source.relocation number beyond base).label := by
  have labels := source.program.withLabels_counted 0
  rw [tree, Node.withLabels_from]
  refine Node.map_congr _ fun label mem => ?_
  exact (if_pos (labels.lt mem)).symm

theorem Node.size_annotated (n : Node Unit) (found : Annotations) :
    (n.annotated found).found.size = found.size + (n.withLabels 0).2 := by
  change (found ++ Array.replicate ((n.withLabels found.size).2 - found.size) _).size = _
  rw [Node.withLabels_from, Array.size_append, Array.size_replicate, Nat.add_sub_cancel_left]

/-- Before the check of a program, nothing has been found in it. -/
theorem follows_start (inside : source.bound ≤ s.found.size) (room : s.found.size ≤ beyond) :
    Annotations.Follows (source.relocation s.checks beyond base) s.found
      (source.program.annotated #[]).found s.found where
  here label := by
    rw [source.program.of_annotated]
    rfl
  others _ _ := rfl
  room label := by
    rw [Node.size_annotated, Array.size_empty, Nat.zero_add]
    exact spread_lt inside room label
  size := rfl

/-- A check of a program in a session comes to the same as that of the program on its own, and
finds the same. -/
theorem analyze_follows (inside : source.bound ≤ s.found.size) (room : s.found.size ≤ beyond)
    (base : Store) :
    (s.analyze source.tree).2 = (source.relocation s.checks beyond base).result
        (Context.relocate (source.relocation s.checks beyond base))
        ((source.program.annotated #[]).check 0 []).1 ∧
      Annotations.Follows (source.relocation s.checks beyond base) s.found
        source.program.checked.found (s.analyze source.tree).1.found := by
  have walk := Node.checkProgram_relocates (r := source.relocation s.checks beyond base)
    0 [] (source.program.annotated #[]).tree _ _ (follows_start inside room)
  rw [Nat.zero_add, ← source.tree_relocate] at walk
  exact walk

/-- Before anything is found of a program that is taken up, nothing is known of its nodes. -/
theorem of_load (s : Session) (n : Node Unit) (label : Label) :
    (s.load n).1.found.of label = if label < s.found.size then s.found.of label else {} := by
  change (s.found ++ Array.replicate _ _)[label]?.getD _ = _
  rw [Array.getElem?_append]
  split
  · rfl
  · rw [Array.getElem?_replicate]
    split <;> rfl

end

/-- No label belongs to both programs. -/
def Source.Apart (a b : Source) : Prop :=
  a.bound ≤ b.first ∨ b.bound ≤ a.first

instance : Std.Symm Source.Apart :=
  ⟨fun _ _ => Or.symm⟩

/-- What is known in a session of programs: of those taken up no more than a check of the program
on its own finds, and of those analyzed just that, as found in some check. -/
structure Session.Keeps (sources analyzed : List Source) (s : Session) : Prop where
  apart : sources.Pairwise Source.Apart
  inside : ∀ source ∈ sources, source.bound ≤ s.found.size
  covered : ∀ source ∈ sources, ∀ l < source.size,
    (source.program.checked.found.of l).Covers (s.found.of (source.first + l))
  known : ∀ source ∈ analyzed, source ∈ sources ∧ ∃ number, ∀ beyond base,
    s.found.size ≤ beyond → ∀ l < source.size, s.found.of (source.first + l) =
      (source.program.checked.found.of l).relocate (source.relocation number beyond base)

namespace Session.Keeps

variable {sources analyzed : List Source} {s s' : Session} {source : Source}

/-- Nothing that was known has changed. -/
theorem later (h : s.Keeps sources analyzed) (grown : s.found.size ≤ s'.found.size)
    (same : ∀ l < s.found.size, s'.found.of l = s.found.of l) : s'.Keeps sources analyzed := by
  have same {source : Source} (mem : source ∈ sources) {l : Nat} (lt : l < source.size) :
      s'.found.of (source.first + l) = s.found.of (source.first + l) :=
    same _ (Nat.lt_of_lt_of_le (Nat.add_lt_add_left lt _) (h.inside source mem))
  refine ⟨h.apart, fun source mem => Nat.le_trans (h.inside source mem) grown,
    fun source mem l lt => ?_, fun source mem => ?_⟩
  · rw [same mem lt]
    exact h.covered source mem l lt
  · obtain ⟨mem, number, known⟩ := h.known source mem
    refine ⟨mem, number, fun beyond base room l lt => ?_⟩
    rw [same mem lt]
    exact known beyond base (Nat.le_trans grown room) l lt

theorem of_found (h : s.Keeps sources analyzed) (same : s'.found = s.found) :
    s'.Keeps sources analyzed :=
  h.later (Nat.le_of_eq (congrArg Array.size same).symm) fun _ _ => by rw [same]

theorem load (h : s.Keeps sources analyzed) (n : Node Unit) :
    (s.load n).1.Keeps (⟨n, s.found.size⟩ :: sources) analyzed := by
  have size : (s.load n).1.found.size = s.found.size + (n.withLabels 0).2 := n.size_annotated s.found
  have rest : (s.load n).1.Keeps sources analyzed :=
    h.later (by rw [size]; exact Nat.le_add_right _ _) fun l lt => by rw [of_load, if_pos lt]
  refine ⟨.cons (fun earlier mem => .inr (h.inside earlier mem)) rest.apart,
    List.forall_mem_cons.2 ⟨Nat.le_of_eq size.symm, rest.inside⟩,
    List.forall_mem_cons.2 ⟨fun l _ => ?_, rest.covered⟩, fun source mem => ?_⟩
  · rw [of_load, if_neg (Nat.not_lt.2 (Nat.le_add_right _ _))]
    exact ⟨fun _ => rfl, fun _ => rfl, fun _ => rfl⟩
  · obtain ⟨mem, known⟩ := rest.known source mem
    exact ⟨List.mem_cons_of_mem _ mem, known⟩

theorem analyze (h : s.Keeps sources analyzed) (mem : source ∈ sources) :
    (s.analyze source.tree).1.Keeps sources (source :: analyzed) := by
  have follows (beyond : Nat) (base : Store) (room : s.found.size ≤ beyond) :=
    (analyze_follows (h.inside source mem) room base).2
  have size := (follows s.found.size {} (Nat.le_refl _)).size
  -- of its own nodes, the check has found what one of the program on its own finds
  have own (beyond : Nat) (base : Store) (room : s.found.size ≤ beyond) (l : Nat)
      (lt : l < source.size) : (s.analyze source.tree).1.found.of (source.first + l) =
        (source.program.checked.found.of l).relocate
          (source.relocation s.checks beyond base) := by
    have here := (follows beyond base room).here l
    rw [show (source.relocation s.checks beyond base).label l = source.first + l from if_pos lt,
      Annotation.orElse_of_covers (h.covered source mem l lt)] at here
    exact here
  -- of all others, it has found nothing
  have others {other : Source} (mem' : other ∈ sources) (different : source ≠ other) (l : Nat)
      (lt : l < other.size) : (s.analyze source.tree).1.found.of (other.first + l) =
        s.found.of (other.first + l) := by
    refine (follows s.found.size {} (Nat.le_refl _)).others _ fun m => ?_
    have apart : source.Apart other := h.apart.forall mem mem' different
    exact spread_ne apart (h.inside other mem') (Nat.le_refl _) m lt
  refine ⟨h.apart, fun other mem' => ?_, fun other mem' l lt => ?_,
    List.forall_mem_cons.2 ⟨⟨mem, s.checks, fun beyond base room => ?_⟩, fun other mem' => ?_⟩⟩
  · rw [size]
    exact h.inside other mem'
  · by_cases same : source = other
    · subst same
      rw [own s.found.size {} (Nat.le_refl _) l lt]
      exact Annotation.covers_relocate _
    · rw [others mem' same l lt]
      exact h.covered other mem' l lt
  · rw [size] at room
    exact own beyond base room
  · obtain ⟨mem', number, known⟩ := h.known other mem'
    by_cases same : source = other
    · subst same
      exact ⟨mem', s.checks, fun beyond base room => own beyond base (size ▸ room)⟩
    · refine ⟨mem', number, fun beyond base room l lt => ?_⟩
      rw [others mem' same l lt]
      exact known beyond base (size ▸ room) l lt

end Session.Keeps

namespace Session

variable {s : Session} {settings : Settings} {steps : Nat} {tree : Node Label}

theorem found_run {env : Env} {around : Surroundings} {known : List StaticBlock} :
    (s.run settings steps env around known tree).1.found = s.found := by
  unfold Session.run
  cases Machine.run settings ⟨tree, s.found⟩ steps (.initial env { store := s.store }) <;> rfl

/-- A run finds nothing out about nodes, -/
theorem found_perform : (s.perform settings steps .fresh false tree).1.found = s.found :=
  found_run

/-- and a program that is checked and run is known from the check alone. -/
theorem found_perform_checked : (s.perform settings steps .fresh true tree).1.found =
    (s.analyze tree).1.found := by
  rw [Session.perform]
  simp only [↓reduceIte]
  split
  · rfl
  · exact found_run

theorem Past.keeps {sources analyzed : List Source} (past : Past sources analyzed s) :
    s.Keeps sources analyzed := by
  induction past with
  | start => exact ⟨.nil, nofun, nofun, nofun⟩
  | load _ n ih => exact ih.load n
  | analyze _ mem ih => exact ih.analyze mem
  | run _ _ settings steps ih => exact ih.of_found found_perform
  | perform _ mem settings steps ih => exact (ih.analyze mem).of_found found_perform_checked

end Session

end PlcLang
