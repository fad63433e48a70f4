import PlcLang.Proofs.Running.Sound

namespace PlcLang

section

variable {c : Course} {bottom : Waiting} {F : Defined} {made : Made} {t u r : Ty} {p : Scope}
  {cs : List Scope} {K : List Frame} {calls : Nat} {w : World} {v : Value}

/-- A call is made when all its arguments have values. -/
theorem invoke_keeps {key : Key} {g : Signature} {name : Json} {arguments : List Value}
    {node : Node Label} (isName : name.key? = some key)
    (inScope : p.context.findFunction key arguments.length = some g)
    (admitted : Admitted c.demands arguments g.parameters)
    (wants : Wants c bottom w.store g.returns r p cs K) (live : Live c F w.store made p cs) :
    Keeps c bottom F made
      ((c.situation K calls w).invoke (p.env c.root) name arguments node) := by
  obtain ⟨n, f, hf, hd, he⟩ :=
    invoke_eq (s := c.situation K calls w) live isName inScope
  rw [he]
  exact Sound.call hf hd admitted wants live

/-- A list is made of values. -/
theorem newList_keeps {items : Array Value} (listed : ¬ c.demands.typed)
    (wants : Wants c bottom w.store t r p cs K) (live : Live c F w.store made p cs) :
    Keeps c bottom F made
      (((c.situation K calls w).withWorld { w with store := (w.store.newList items).1 }).go
        (.value (.list (w.store.newList items).2))) :=
  Sound.value (t := t) (fun d => (listed d).elim) (wants.grow Store.grows_lists) live.setLists

theorem evaluate_keeps {e : Node Label} (typed : Typed c.demands c.found p.context e t)
    (wants : Wants c bottom w.store t r p cs K) (live : Live c F w.store made p cs) :
    Keeps c bottom F made ((c.situation K calls w).evaluate e (p.env c.root)) := by
  cases typed with
  | literal fits noted => exact Sound.value (fun _ => admits_literal fits) wants live
  | group inside noted => exact Sound.evaluate inside wants live
  | binary first second fits ordered noted =>
    rename_i op left right l u
    cases op with
    | and =>
      obtain ⟨rfl, rfl, rfl⟩ := binaryType_logic (Or.inl rfl) fits
      exact Sound.evaluate first (.test second wants) live
    | or =>
      obtain ⟨rfl, rfl, rfl⟩ := binaryType_logic (Or.inr rfl) fits
      exact Sound.evaluate first (.test second wants) live
    | _ => exact Sound.evaluate first (.left (by simp) second fits ordered wants) live
  | access isName inScope bound noted =>
    obtain ⟨n, x, _, hx, ht, he⟩ :=
      resolve_eq (s := c.situation K calls w) live.fits rfl isName inScope bound
    simp only [Situation.evaluate, he, Node.isAbsent, ↓reduceIte]
    exact Sound.value (fun d => live.sorted d n x _ hx (ht d)) wants live
  | element listed given index isName inScope bound noted =>
    obtain ⟨n, x, _, _, _, he⟩ :=
      resolve_eq (s := c.situation K calls w) live.fits rfl isName inScope bound
    simp only [Situation.evaluate, he, given, Bool.false_eq_true, ↓reduceIte]
    exact leads_requireList listed fun list => Sound.evaluate index (.index listed wants) live
  | call isName inScope given noted =>
    rename_i label name arguments key f
    cases arguments with
    | nil =>
      have none : f.parameters = [] := by
        cases hp : f.parameters with
        | nil => rfl
        | cons => rw [hp] at given; cases given
      exact invoke_keeps isName inScope (none ▸ .nil) wants live
    | cons first rest =>
      generalize hp : f.parameters = parameters at given
      cases given with
      | cons typed fits others =>
        have takes : f.parameters = [] ++ _ :: _ := hp
        refine Sound.evaluate typed (.argument isName ?_ takes .nil fits others wants) live
        rw [List.length_nil, Nat.zero_add, Nat.add_comm]
        exact inScope
  | missing listed noted =>
    exact leads_fail (s := c.situation K calls w) (Or.inr (Or.inr ⟨rfl, listed⟩))
  | list listed inside noted =>
    rename_i label elements
    cases elements with
    | nil => exact newList_keeps listed wants live
    | cons first rest =>
      cases inside with
      | cons first others => exact Sound.evaluate first (.element listed others wants) live

theorem resume_left {op : Operator} {right node leftNode whole : Node Label} {l : Ty}
    (strict : op ≠ .and ∧ op ≠ .or) (second : Typed c.demands c.found p.context right u)
    (fits : binaryType op leftNode right whole l u = .ok t)
    (ordered : c.demands.typed → op = .less ∨ op = .greater → l ≠ .comparable)
    (admits : c.demands.typed → l.admits v.tag = true)
    (behind : Wants c bottom w.store t r p cs K) (live : Live c F w.store made p cs) :
    Keeps c bottom F made
      ((c.situation K calls w).resume v (.left op right node (p.env c.root))) :=
  Sound.evaluate second (.right strict admits fits ordered behind) live

theorem resume_right {op : Operator} {a : Value} {node leftNode rightNode whole : Node Label}
    {l : Ty} (strict : op ≠ .and ∧ op ≠ .or) (first : c.demands.typed → l.admits a.tag = true)
    (fits : binaryType op leftNode rightNode whole l u = .ok t)
    (ordered : c.demands.typed → op = .less ∨ op = .greater → l ≠ .comparable)
    (admits : c.demands.typed → u.admits v.tag = true)
    (behind : Wants c bottom w.store t r p cs K) (live : Live c F w.store made p cs) :
    Keeps c bottom F made ((c.situation K calls w).resume v (.right op a node)) := by
  have meets : Meets c.demands t (w.store.lists.apply c.settings.depth op a v node) :=
    apply_meets fits ordered strict first admits
  simp only [Situation.resume, Course.situation, Situation.require, Step.require]
  split
  · rename_i result he
    rw [he] at meets
    exact Sound.value meets behind live
  · rename_i f he
    rw [he] at meets
    exact Tolerable.error meets

theorem resume_test {decisive : Bool} {left right : Node Label}
    (second : Typed c.demands c.found p.context right .boolean)
    (admits : c.demands.typed → Ty.boolean.admits v.tag = true)
    (behind : Wants c bottom w.store .boolean r p cs K) (live : Live c F w.store made p cs) :
    Keeps c bottom F made
      ((c.situation K calls w).resume v (.test decisive left right (p.env c.root))) := by
  refine leads_requireBoolean admits fun b _ => ?_
  split
  · exact Sound.value (fun _ => rfl) behind live
  · exact Sound.evaluate second (.boolean behind) live

theorem resume_index {list : Nat} {node : Node Label} (listed : ¬ c.demands.typed)
    (behind : Wants c bottom w.store t r p cs K) (live : Live c F w.store made p cs) :
    Keeps c bottom F made ((c.situation K calls w).resume v (.index list node)) := by
  simp only [Situation.resume]
  exact leads_requireIndex listed fun i => Sound.value (fun d => (listed d).elim) behind live

theorem resume_argument {name : Json} {key : Key} {done : List Value} {rest : List (Node Label)}
    {node : Node Label} {f : Signature} {before after : List Ty}
    (isName : name.key? = some key)
    (inScope : p.context.findFunction key (done.length + 1 + rest.length) = some f)
    (takes : f.parameters = before ++ u :: after)
    (admitted : Admitted c.demands done.reverse before) (fits : u.accepts t = true)
    (others : TypedArguments c.demands c.found p.context rest after)
    (admits : c.demands.typed → t.admits v.tag = true)
    (behind : Wants c bottom w.store f.returns r p cs K) (live : Live c F w.store made p cs) :
    Keeps c bottom F made
      ((c.situation K calls w).resume v (.argument name done rest node (p.env c.root))) := by
  have admitted : Admitted c.demands (v :: done).reverse (before ++ [u]) := by
    rw [List.reverse_cons]
    exact admitted.snoc fun d => Ty.admits_of_accepts fits (admits d)
  cases others with
  | nil =>
    refine invoke_keeps isName ?_ ?_ behind live
    · rw [List.length_reverse]
      exact inScope
    · rw [takes]
      exact admitted
  | cons first fits others =>
    rename_i _ _ _ next parameters
    have takes : f.parameters = (before ++ [u]) ++ next :: parameters := by
      rw [takes, List.append_assoc, List.singleton_append]
    refine Sound.evaluate first (.argument isName ?_ takes admitted fits others behind) live
    rw [List.length_cons, Nat.add_right_comm]
    rw [List.length_cons] at inScope
    exact inScope

theorem resume_element {done : List Value} {rest : List (Node Label)}
    (listed : ¬ c.demands.typed)
    (others : TypedElements c.demands c.found p.context rest u)
    (behind : Wants c bottom w.store t r p cs K) (live : Live c F w.store made p cs) :
    Keeps c bottom F made
      ((c.situation K calls w).resume v (.element done rest (p.env c.root))) := by
  cases others with
  | nil => exact newList_keeps listed behind live
  | cons first others => exact Sound.evaluate first (.element listed others behind) live

end

end PlcLang
