import PlcLang.Proofs.Parsing.Statements

/-! The words of globals and functions are read as a program. -/

namespace PlcLang

open Word

namespace Parser

variable {G : List Global} {F : List Function} {B : List OpenBlock}

/-- A global is a constant or may be set again. -/
def kindOf (isMutable : Bool) : GlobalKind :=
  if isMutable then .mutable else .constant

/-- The words of a global up to its type. -/
theorem global_header_reads {name typeName : String} (isMutable : Bool) (named : IsName name)
    (typed : IsName typeName) :
    Reads (⟨G, F, B, .top false⟩, .start)
      (Word.key (if isMutable then .VAR else .VAL) :: Word.ident name :: typeWords (some typeName))
      (⟨G, F, B, .globalType (kindOf isMutable) name typeName⟩,
        Configuration.globalTypePlace (kindOf isMutable)) := by
  have keyword : Reads (⟨G, F, B, .top false⟩, .start)
      [Word.key (if isMutable then .VAR else .VAL)]
      (⟨G, F, B, .globalKind (kindOf isMutable)⟩, .nameWanted) := by
    cases isMutable with
    | true => exact Reads.key .VAR (by decide) fun _ => rfl
    | false => exact Reads.key .VAL (by decide) fun _ => rfl
  generalize kindOf isMutable = kind at keyword ⊢
  have global_name := Reads.ident (c := ⟨G, F, B, .globalKind kind⟩) named
    (show Terminal.ident ∈ Place.nameWanted.accepts by decide)
    (fun name => (⟨G, F, B, .globalName kind name⟩, .variableName)) fun _ => rfl
  have colon : Reads (⟨G, F, B, .globalName kind name⟩, .variableName) [Word.mark .colon]
      (⟨G, F, B, .globalColon kind name⟩, .nameWanted) :=
    Reads.mark .colon (by decide) fun _ => rfl
  have type_name := Reads.ident (c := ⟨G, F, B, .globalColon kind name⟩) typed
    (show Terminal.ident ∈ Place.nameWanted.accepts by decide)
    (fun t => (⟨G, F, B, .globalType kind name t⟩, Configuration.globalTypePlace kind)) fun _ => rfl
  exact ((keyword.append global_name).append colon).append type_name

end Parser

end PlcLang
