namespace PlcLang

/-- Keys with their values, in the order in which the keys were first put in. -/
abbrev Table (κ ν : Type) := List (κ × ν)

namespace Table

variable {κ ν : Type} [BEq κ]

/-- Adds a pair; a key that is there already keeps its place and takes the new value. -/
def put (key : κ) (value : ν) : Table κ ν → Table κ ν
  | [] => [(key, value)]
  | (k, v) :: rest => if k == key then (k, value) :: rest else (k, v) :: put key value rest

def keys (t : Table κ ν) : List κ :=
  t.map (·.1)

def has (t : Table κ ν) (key : κ) : Bool :=
  (t.lookup key).isSome

variable [LawfulBEq κ]

theorem lookup_put (t : Table κ ν) (key other : κ) (value : ν) :
    (t.put key value).lookup other = if other == key then some value else t.lookup other := by
  induction t with
  | nil =>
    simp only [put, List.lookup_cons]
    cases other == key <;> rfl
  | cons p t ih =>
    obtain ⟨k, v⟩ := p
    by_cases hk : k = key
    · subst hk
      simp only [put, beq_self_eq_true, ↓reduceIte, List.lookup_cons]
      cases other == k <;> rfl
    · simp only [put, beq_iff_eq, hk, ↓reduceIte, List.lookup_cons, ih]
      by_cases ho : other = k
      · subst ho
        simp [hk]
      · rw [beq_eq_false_iff_ne.2 ho]

theorem keys_put (t : Table κ ν) (key : κ) (value : ν) :
    (t.put key value).keys = if key ∈ t.keys then t.keys else t.keys ++ [key] := by
  induction t with
  | nil => simp [put, keys]
  | cons p t ih =>
    obtain ⟨k, v⟩ := p
    by_cases hk : k = key
    · subst hk; simp [put, keys]
    · simp only [keys] at ih
      simp only [put, beq_iff_eq, hk, ↓reduceIte, keys, List.map_cons, ih, List.mem_cons,
        Ne.symm hk, false_or]
      split <;> simp_all

/-- A key that is not there yet comes last. -/
theorem put_of_free {t : Table κ ν} {key : κ} (value : ν) (free : t.lookup key = none) :
    t.put key value = t ++ [(key, value)] := by
  induction t with
  | nil => rfl
  | cons entry rest ih =>
    obtain ⟨k, v⟩ := entry
    rw [List.lookup_cons] at free
    split at free
    · contradiction
    · rename_i other
      have other : (k == key) = false := by
        rw [beq_eq_false_iff_ne] at other ⊢
        exact Ne.symm other
      simp only [put, other, Bool.false_eq_true, ↓reduceIte, ih free, List.cons_append]

end Table

end PlcLang
