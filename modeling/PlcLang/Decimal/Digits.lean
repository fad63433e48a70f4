namespace PlcLang

/-- The power of ten with that exponent. -/
def tenTo (n : Nat) : Nat :=
  Nat.pow 10 n

theorem tenTo_pos (n : Nat) : 0 < tenTo n :=
  Nat.pow_pos (by decide)

theorem tenTo_add (m n : Nat) : tenTo (m + n) = tenTo m * tenTo n :=
  Nat.pow_add 10 m n

theorem tenTo_le_tenTo {m n : Nat} (h : m ≤ n) : tenTo m ≤ tenTo n :=
  Nat.pow_le_pow_right (by decide) h

/-- Counts digits by halves: a number of more than `2 ^ i` digits has that many more than its
upper part. -/
def countDigitsBelow : Nat → Nat → Nat
  | 0, _ => 1
  | i + 1, n =>
    if tenTo (1 <<< i) ≤ n then 1 <<< i + countDigitsBelow i (n / tenTo (1 <<< i))
    else countDigitsBelow i n

/-- The number of decimal digits of a number; zero has one. -/
def digitCount (n : Nat) : Nat :=
  countDigitsBelow (n.log2.log2 + 1) n

theorem countDigitsBelow_pos (i n : Nat) : 0 < countDigitsBelow i n := by
  induction i generalizing n with
  | zero => simp [countDigitsBelow]
  | succ i ih =>
    simp only [countDigitsBelow]
    split
    · exact Nat.add_pos_right _ (ih _)
    · exact ih n

theorem lt_tenTo_countDigitsBelow (i n : Nat) (h : n < tenTo (1 <<< i)) :
    n < tenTo (countDigitsBelow i n) := by
  induction i generalizing n with
  | zero => exact h
  | succ i ih =>
    simp only [countDigitsBelow]
    split
    · have hp : 0 < tenTo (1 <<< i) := tenTo_pos _
      have hq : n / tenTo (1 <<< i) < tenTo (1 <<< i) := by
        apply Nat.div_lt_of_lt_mul
        rwa [← tenTo_add, ← Nat.two_mul, ← Nat.shiftLeft_succ]
      rw [tenTo_add, Nat.mul_comm]
      exact (Nat.div_lt_iff_lt_mul hp).1 (ih _ hq)
    · rename_i hn
      exact ih n (Nat.lt_of_not_le hn)

theorem tenTo_countDigitsBelow_le (i n : Nat) (h : 0 < n) :
    tenTo (countDigitsBelow i n - 1) ≤ n := by
  induction i generalizing n with
  | zero => exact h
  | succ i ih =>
    simp only [countDigitsBelow]
    split
    · rename_i hn
      have hd := ih _ (Nat.div_pos hn (tenTo_pos _))
      rw [Nat.add_sub_assoc (countDigitsBelow_pos i _), tenTo_add]
      exact Nat.le_trans (Nat.mul_le_mul_left _ hd) (Nat.mul_div_le n _)
    · exact ih n h

theorem digitCount_pos (n : Nat) : 0 < digitCount n :=
  countDigitsBelow_pos _ n

/-- So many halvings are enough for all digits of a number. -/
theorem lt_tenTo_halvings (n : Nat) : n < tenTo (1 <<< (n.log2.log2 + 1)) := by
  have h1 : n.log2 < 1 <<< (n.log2.log2 + 1) := by
    rw [Nat.one_shiftLeft]; exact Nat.lt_log2_self
  have h2 : n < 1 <<< (n.log2 + 1) := by
    rw [Nat.one_shiftLeft]; exact Nat.lt_log2_self
  calc n < 1 <<< (n.log2 + 1) := h2
    _ ≤ 1 <<< (1 <<< (n.log2.log2 + 1)) := by
      rw [Nat.one_shiftLeft, Nat.one_shiftLeft (1 <<< _)]
      exact Nat.pow_le_pow_right (by decide) h1
    _ ≤ tenTo (1 <<< (n.log2.log2 + 1)) := by
      rw [Nat.one_shiftLeft (1 <<< _)]
      exact Nat.pow_le_pow_left (by decide) _

theorem lt_tenTo_digitCount (n : Nat) : n < tenTo (digitCount n) :=
  lt_tenTo_countDigitsBelow _ n (lt_tenTo_halvings n)

theorem tenTo_digitCount_le {n : Nat} (h : 0 < n) : tenTo (digitCount n - 1) ≤ n :=
  tenTo_countDigitsBelow_le _ n h

/-- Exactly `2 ^ i` digits of a number in front of others, by halves. -/
def putDigits : Nat → Nat → List Nat → List Nat
  | 0, n, rest => n :: rest
  | i + 1, n, rest =>
    putDigits i (n / tenTo (1 <<< i)) (putDigits i (n % tenTo (1 <<< i)) rest)

/-- The digits of a number in front of others: at most `2 ^ i`, without zeros before the first. -/
def putNumber : Nat → Nat → List Nat → List Nat
  | 0, n, rest => n :: rest
  | i + 1, n, rest =>
    if tenTo (1 <<< i) ≤ n then
      putNumber i (n / tenTo (1 <<< i)) (putDigits i (n % tenTo (1 <<< i)) rest)
    else putNumber i n rest

/-- The decimal digits of a number; zero has one. -/
def digits (n : Nat) : List Nat :=
  putNumber (n.log2.log2 + 1) n []

/-- The number that a run of digits denotes. -/
def digitsValue (ds : List Nat) : Nat :=
  ds.foldl (fun n d => n * 10 + d) 0

/-- The digits of a number as they are written. -/
def digitChars (n : Nat) : List Char :=
  (digits n).map Nat.digitChar

theorem length_putDigits (i n : Nat) (rest : List Nat) :
    (putDigits i n rest).length = 1 <<< i + rest.length := by
  induction i generalizing n rest with
  | zero => simp [putDigits, Nat.add_comm]
  | succ i ih =>
    rw [putDigits, ih, ih, Nat.shiftLeft_succ]
    omega

theorem length_putNumber (i n : Nat) (rest : List Nat) :
    (putNumber i n rest).length = countDigitsBelow i n + rest.length := by
  induction i generalizing n rest with
  | zero => simp [putNumber, countDigitsBelow, Nat.add_comm]
  | succ i ih =>
    simp only [putNumber, countDigitsBelow]
    split
    · rw [ih, length_putDigits]
      omega
    · exact ih n rest

theorem length_digits (n : Nat) : (digits n).length = digitCount n :=
  length_putNumber _ n []

theorem foldl_putDigits (i a n : Nat) (rest : List Nat) :
    (putDigits i n rest).foldl (fun n d => n * 10 + d) a =
      rest.foldl (fun n d => n * 10 + d) (a * tenTo (1 <<< i) + n) := by
  induction i generalizing a n rest with
  | zero => rfl
  | succ i ih =>
    have h : tenTo (1 <<< (i + 1)) = tenTo (1 <<< i) * tenTo (1 <<< i) := by
      rw [Nat.shiftLeft_succ, Nat.two_mul, tenTo_add]
    rw [putDigits, ih, ih, h, Nat.add_mul, Nat.mul_assoc, Nat.add_assoc, Nat.div_add_mod']

theorem foldl_putNumber (i n : Nat) (rest : List Nat) :
    (putNumber i n rest).foldl (fun n d => n * 10 + d) 0 =
      rest.foldl (fun n d => n * 10 + d) n := by
  induction i generalizing n rest with
  | zero => simp [putNumber]
  | succ i ih =>
    simp only [putNumber]
    split
    · rw [ih, foldl_putDigits, Nat.div_add_mod']
    · exact ih n rest

theorem digitsValue_digits (n : Nat) : digitsValue (digits n) = n :=
  foldl_putNumber _ n []

theorem lt_ten_of_mem_putDigits {i n d : Nat} {rest : List Nat} (hn : n < tenTo (1 <<< i))
    (hr : ∀ d ∈ rest, d < 10) (h : d ∈ putDigits i n rest) : d < 10 := by
  induction i generalizing n d rest with
  | zero =>
    rcases List.mem_cons.1 h with rfl | h
    · exact hn
    · exact hr d h
  | succ i ih =>
    have hq : n / tenTo (1 <<< i) < tenTo (1 <<< i) := by
      apply Nat.div_lt_of_lt_mul
      rwa [← tenTo_add, ← Nat.two_mul, ← Nat.shiftLeft_succ]
    exact ih hq (fun _ hd => ih (Nat.mod_lt n (tenTo_pos _)) hr hd) h

theorem lt_ten_of_mem_putNumber {i n d : Nat} {rest : List Nat} (hn : n < tenTo (1 <<< i))
    (hr : ∀ d ∈ rest, d < 10) (h : d ∈ putNumber i n rest) : d < 10 := by
  induction i generalizing n d rest with
  | zero =>
    rcases List.mem_cons.1 h with rfl | h
    · exact hn
    · exact hr d h
  | succ i ih =>
    rw [putNumber] at h
    split at h
    · have hq : n / tenTo (1 <<< i) < tenTo (1 <<< i) := by
        apply Nat.div_lt_of_lt_mul
        rwa [← tenTo_add, ← Nat.two_mul, ← Nat.shiftLeft_succ]
      exact ih hq (fun _ hd => lt_ten_of_mem_putDigits (Nat.mod_lt n (tenTo_pos _)) hr hd) h
    · rename_i hl
      exact ih (Nat.lt_of_not_le hl) hr h

theorem lt_ten_of_mem_digits {n d : Nat} (h : d ∈ digits n) : d < 10 :=
  lt_ten_of_mem_putNumber (lt_tenTo_halvings n) (fun _ hd => (List.not_mem_nil hd).elim) h

end PlcLang
