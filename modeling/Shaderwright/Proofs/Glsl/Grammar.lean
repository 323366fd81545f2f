import Shaderwright.Expr.Basic
import Shaderwright.Proofs.Glsl.Lexer

/-!
# The expression grammar of GLSL

The grammar is given by its rules: primary and suffixed expressions, calls, signs,
seven levels of binary operators that associate to the left, and assignments to a
unary expression that associate to the right. Parentheses leave no node.

A reader goes over the tokens once and keeps a stack of the constructs that are
still open. Main statement: the reader arrives at the tree of every derivation
(`read_of_derives`), so a sequence of tokens has at most one tree
(`Derives.unique`).
-/

namespace Shaderwright.Glsl

/-! ## Rules -/

/-- The words that are constants and not names. -/
def isConstantWord (w : String) : Bool := w == "true" || w == "false"

def unaryOp? : String → Option UnaryOp
  | "-" => some .neg
  | "!" => some .not
  | _ => none

/-- A binary operator with its level; level zero binds tightest. -/
def binaryOp? : String → Option (Nat × BinaryOp)
  | "*" => some (0, .mul)
  | "/" => some (0, .div)
  | "+" => some (1, .add)
  | "-" => some (1, .sub)
  | "<<" => some (2, .shl)
  | ">>" => some (2, .shr)
  | "<" => some (3, .lt)
  | ">" => some (3, .gt)
  | "<=" => some (3, .le)
  | ">=" => some (3, .ge)
  | "==" => some (4, .eq)
  | "!=" => some (4, .ne)
  | "&&" => some (5, .and)
  | "||" => some (6, .or)
  | _ => none

def assignOp? : String → Option AssignOp
  | "=" => some .set
  | "+=" => some .add
  | "-=" => some .sub
  | "*=" => some .mul
  | "/=" => some .div
  | _ => none

inductive Nonterminal where
  | primary
  /-- A primary expression with indices and members after it. -/
  | suffixed
  /-- A call up to its last argument, not closed yet. -/
  | arguments
  | unary
  /-- Operators of the levels below `bound`. -/
  | binary (bound : Nat)
  | assignment

/-- `Derives n ts e`: the tokens are an expression of the kind `n`, with tree `e`. -/
inductive Derives : Nonterminal → List Token → Expr → Prop where
  | name {x : String} : isConstantWord x = false → Derives .primary [.word x] (.ident x)
  | constant {x : String} : isConstantWord x = true → Derives .primary [.word x] (.literal x)
  | number {n : String} : Derives .primary [.number n] (.literal n)
  | group {ts e} : Derives .assignment ts e →
      Derives .primary (.punct "(" :: ts ++ [.punct ")"]) e
  | ofPrimary {ts e} : Derives .primary ts e → Derives .suffixed ts e
  | member {ts e} {m : String} : Derives .suffixed ts e → isConstantWord m = false →
      Derives .suffixed (ts ++ [.punct ".", .word m]) (.member e m)
  | index {ts us e i} : Derives .suffixed ts e → Derives .assignment us i →
      Derives .suffixed (ts ++ .punct "[" :: us ++ [.punct "]"]) (.index e i)
  | callEmpty {f : String} : isConstantWord f = false →
      Derives .suffixed [.word f, .punct "(", .punct ")"] (.call f [])
  | call {ts e} : Derives .arguments ts e → Derives .suffixed (ts ++ [.punct ")"]) e
  | firstArgument {f : String} {ts e} : isConstantWord f = false → Derives .assignment ts e →
      Derives .arguments (.word f :: .punct "(" :: ts) (.call f [e])
  | nextArgument {f : String} {ts us args e} : Derives .arguments ts (.call f args) →
      Derives .assignment us e →
      Derives .arguments (ts ++ .punct "," :: us) (.call f (args ++ [e]))
  | ofSuffixed {ts e} : Derives .suffixed ts e → Derives .unary ts e
  | sign {s : String} {op ts e} : unaryOp? s = some op → Derives .unary ts e →
      Derives .unary (.punct s :: ts) (.unary op e)
  | ofUnary {ts e} : Derives .unary ts e → Derives (.binary 0) ts e
  | ofTighter {k ts e} : Derives (.binary k) ts e → Derives (.binary (k + 1)) ts e
  | operation {s : String} {k op ts us l r} : binaryOp? s = some (k, op) →
      Derives (.binary (k + 1)) ts l → Derives (.binary k) us r →
      Derives (.binary (k + 1)) (ts ++ .punct s :: us) (.binary op l r)
  | ofBinary {ts e} : Derives (.binary 7) ts e → Derives .assignment ts e
  | assign {s : String} {op ts us t v} : assignOp? s = some op →
      Derives .unary ts t → Derives .assignment us v →
      Derives .assignment (ts ++ .punct s :: us) (.assign op t v)

/-! ## The reader -/

/-- A construct that is still open. -/
inductive Frame where
  | group
  | index (base : Expr)
  /-- A call with the arguments that are complete. -/
  | argument (name : String) (args : List Expr)
  | sign (op : UnaryOp)
  /-- A binary operator with its left operand. -/
  | operand (level : Nat) (op : BinaryOp) (lhs : Expr)
  | target (op : AssignOp) (target : Expr)

/-- What was read last, under the constructs that are open, the innermost first. -/
inductive State where
  /-- An operand has to begin. -/
  | start (fs : List Frame)
  /-- A name, of a variable or of a function. -/
  | named (fs : List Frame) (name : String)
  /-- An operand that is no bare name. -/
  | done (fs : List Frame) (e : Expr)
  | dotted (fs : List Frame) (e : Expr)
  | called (fs : List Frame) (name : String)

/-- Closes the signs and the operators below `bound` that stand innermost, and above
level seven the assignments too. -/
def reduce (bound : Nat) : List Frame → Expr → List Frame × Expr
  | .sign op :: fs, e => reduce bound fs (.unary op e)
  | .operand k op l :: fs, e =>
      if k < bound then reduce bound fs (.binary op l e) else (.operand k op l :: fs, e)
  | .target op t :: fs, e =>
      if 7 < bound then reduce bound fs (.assign op t e) else (.target op t :: fs, e)
  | fs, e => (fs, e)

/-- Whether `reduce` leaves the constructs as they are. -/
def isOpen (bound : Nat) : List Frame → Bool
  | .sign _ :: _ => false
  | .operand k _ _ :: _ => decide (bound ≤ k)
  | .target _ _ :: _ => decide (bound ≤ 7)
  | _ => true

/-- Reads the first token of an operand. -/
def enter (fs : List Frame) : Token → Option State
  | .word w => some (if isConstantWord w then .done fs (.literal w) else .named fs w)
  | .number n => some (.done fs (.literal n))
  | .punct s =>
      if s = "(" then some (.start (.group :: fs))
      else (unaryOp? s).map fun op => .start (.sign op :: fs)

/-- Reads a token after an operand. -/
def advance (fs : List Frame) (e : Expr) : Token → Option State
  | .punct s =>
      if s = "." then some (.dotted fs e)
      else if s = "[" then some (.start (.index e :: fs))
      else if s = ")" then
        match reduce 8 fs e with
        | (.group :: fs, e) => some (.done fs e)
        | (.argument f args :: fs, e) => some (.done fs (.call f (args ++ [e])))
        | _ => none
      else if s = "]" then
        match reduce 8 fs e with
        | (.index base :: fs, e) => some (.done fs (.index base e))
        | _ => none
      else if s = "," then
        match reduce 8 fs e with
        | (.argument f args :: fs, e) => some (.start (.argument f (args ++ [e]) :: fs))
        | _ => none
      else
        match binaryOp? s, assignOp? s with
        | some (k, op), _ =>
            match reduce (k + 1) fs e with
            | (fs, l) => some (.start (.operand k op l :: fs))
        | none, some op =>
            match reduce 0 fs e with
            | (fs, t) => if isOpen 7 fs then some (.start (.target op t :: fs)) else none
        | none, none => none
  | _ => none

def step : State → Token → Option State
  | .start fs, t => enter fs t
  | .named fs x, t => if t = .punct "(" then some (.called fs x) else advance fs (.ident x) t
  | .done fs e, t => advance fs e t
  | .dotted fs e, .word m =>
      if isConstantWord m then none else some (.done fs (.member e m))
  | .dotted _ _, _ => none
  | .called fs f, t =>
      if t = .punct ")" then some (.done fs (.call f [])) else enter (.argument f [] :: fs) t

def run (s : State) : List Token → Option State
  | [] => some s
  | t :: ts =>
      match step s t with
      | some s => run s ts
      | none => none

/-- The operand read last, with the constructs around it. -/
def State.operand? : State → Option (List Frame × Expr)
  | .named fs x => some (fs, .ident x)
  | .done fs e => some (fs, e)
  | _ => none

/-- The tree of a sequence of tokens. -/
def read (ts : List Token) : Option Expr :=
  match (run (.start []) ts).bind State.operand? with
  | some (fs, e) =>
      match reduce 8 fs e with
      | ([], e) => some e
      | _ => none
  | none => none

/-! ## Steps of the reader -/

theorem run_append (s : State) (ts us : List Token) :
    run s (ts ++ us) = (run s ts).bind fun s => run s us := by
  induction ts generalizing s with
  | nil => rfl
  | cons t ts ih =>
      rw [List.cons_append, run, run]
      cases step s t with
      | none => rfl
      | some s' => exact ih s'

theorem run_append_of_run {s s' : State} {ts : List Token} (h : run s ts = some s')
    (us : List Token) : run s (ts ++ us) = run s' us := by
  rw [run_append, h]
  rfl

theorem run_singleton (s : State) (t : Token) : run s [t] = step s t := by
  rw [run]
  cases step s t <;> rfl

theorem reduce_of_isOpen {bound : Nat} {fs : List Frame} (h : isOpen bound fs = true) (e : Expr) :
    reduce bound fs e = (fs, e) := by
  cases fs with
  | nil => rfl
  | cons f fs =>
      cases f with
      | sign op => exact absurd h (by simp [isOpen])
      | operand k op l => rw [reduce, if_neg (by simpa [isOpen] using h)]
      | target op t => rw [reduce, if_neg (by simpa [isOpen] using h)]
      | group => rfl
      | index base => rfl
      | argument f args => rfl

theorem isOpen_mono {j k : Nat} {fs : List Frame} (h : isOpen k fs = true) (hjk : j ≤ k) :
    isOpen j fs = true := by
  cases fs with
  | nil => rfl
  | cons f fs =>
      cases f with
      | sign op => exact absurd h (by simp [isOpen])
      | operand l op e => simp only [isOpen, decide_eq_true_eq] at h ⊢; omega
      | target op t => simp only [isOpen, decide_eq_true_eq] at h ⊢; omega
      | group => rfl
      | index base => rfl
      | argument f args => rfl

/-- After an operand every token but an opening parenthesis goes on from the operand. -/
theorem step_of_operand? {s : State} {fs : List Frame} {e : Expr} {t : Token}
    (h : s.operand? = some (fs, e)) (ht : t ≠ .punct "(") : step s t = advance fs e t := by
  cases s with
  | named gs x =>
      obtain ⟨rfl, rfl⟩ := Prod.mk.inj (Option.some.inj h)
      rw [step, if_neg ht]
  | done gs x =>
      obtain ⟨rfl, rfl⟩ := Prod.mk.inj (Option.some.inj h)
      rfl
  | start gs => exact absurd h (by simp [State.operand?])
  | dotted gs x => exact absurd h (by simp [State.operand?])
  | called gs x => exact absurd h (by simp [State.operand?])

theorem advance_binaryOp? {s : String} {k : Nat} {op : BinaryOp} (h : binaryOp? s = some (k, op))
    {fs gs : List Frame} {e l : Expr} (hred : reduce (k + 1) fs e = (gs, l)) :
    advance fs e (.punct s) = some (.start (.operand k op l :: gs)) := by
  have hs : s ≠ "." ∧ s ≠ "[" ∧ s ≠ ")" ∧ s ≠ "]" ∧ s ≠ "," := by
    refine ⟨?_, ?_, ?_, ?_, ?_⟩ <;> (rintro rfl; exact absurd h (by simp [binaryOp?]))
  simp only [advance, hs, if_false, h, hred]

theorem advance_assignOp? {s : String} {op : AssignOp} (h : assignOp? s = some op)
    {fs gs : List Frame} {e t : Expr} (hred : reduce 0 fs e = (gs, t))
    (hopen : isOpen 7 gs = true) :
    advance fs e (.punct s) = some (.start (.target op t :: gs)) := by
  have hs : s ≠ "." ∧ s ≠ "[" ∧ s ≠ ")" ∧ s ≠ "]" ∧ s ≠ "," := by
    refine ⟨?_, ?_, ?_, ?_, ?_⟩ <;> (rintro rfl; exact absurd h (by simp [assignOp?]))
  have hb : binaryOp? s = none := by
    unfold assignOp? at h
    split at h
    · rfl
    · rfl
    · rfl
    · rfl
    · rfl
    · exact absurd h (by simp)
  simp only [advance, hs, if_false, hb, h, hred, hopen, if_true]

/-! ## Completeness -/

/-- What the constructs around an expression have to leave to it. -/
def Admits (fs : List Frame) : Nonterminal → Prop
  | .binary k => isOpen k fs = true
  | .assignment => isOpen 7 fs = true
  | _ => True

/-- The state after an expression of some kind with tree `e`: up to constructs that
the expression itself left open, the operand `e` under the constructs `fs`. -/
def Reached (fs : List Frame) (e : Expr) (s : State) : Nonterminal → Prop
  | .primary | .suffixed => s.operand? = some (fs, e)
  | .arguments => ∃ gs x f args last, s.operand? = some (gs, x) ∧
      reduce 8 gs x = (.argument f args :: fs, last) ∧ e = .call f (args ++ [last])
  | .unary => ∃ gs x, s.operand? = some (gs, x) ∧ ∀ j, reduce j gs x = reduce j fs e
  | .binary k => ∃ gs x, s.operand? = some (gs, x) ∧ ∀ j, k ≤ j → reduce j gs x = reduce j fs e
  | .assignment => ∃ gs x, s.operand? = some (gs, x) ∧ reduce 8 gs x = reduce 8 fs e

/-- The arguments of a call begin like an operand of their own. -/
theorem run_called {fs : List Frame} {f : String} {ts : List Token} {s : State}
    {operand : List Frame × Expr} (h : run (.start (.argument f [] :: fs)) ts = some s)
    (hs : s.operand? = some operand) : run (.called fs f) ts = some s := by
  cases ts with
  | nil =>
      obtain rfl := Option.some.inj h
      exact absurd hs (by simp [State.operand?])
  | cons t ts =>
      have ht : t ≠ .punct ")" := by
        rintro rfl
        exact absurd h (by simp [run, step, enter, unaryOp?])
      rw [run] at h ⊢
      rwa [step, if_neg ht]

/-- **Completeness of the reader.** Induction on the derivation; the tail of open
constructs that an expression leaves behind is what `reduce` folds into its tree. -/
theorem run_of_derives {n : Nonterminal} {ts : List Token} {e : Expr} (h : Derives n ts e) :
    ∀ fs, Admits fs n → ∃ s, run (.start fs) ts = some s ∧ Reached fs e s n := by
  -- Over the derivation; the frames stay free, since every part runs on top of those
  -- of what stands around it.
  induction h with
  | @name x hx =>
      intro fs _
      exact ⟨.named fs x, by simp [run_singleton, step, enter, hx], rfl⟩
  | @constant x hx =>
      intro fs _
      exact ⟨.done fs (.literal x), by simp [run_singleton, step, enter, hx], rfl⟩
  | @number n =>
      intro fs _
      exact ⟨.done fs (.literal n), by simp [run_singleton, step, enter], rfl⟩
  | @group ts e _ ih =>
      intro fs _
      obtain ⟨s, hrun, gs, x, hs, hred⟩ := ih (.group :: fs) rfl
      refine ⟨.done fs e, ?_, rfl⟩
      rw [List.cons_append, run]
      show run (.start (.group :: fs)) (ts ++ [.punct ")"]) = _
      rw [run_append_of_run hrun, run_singleton, step_of_operand? hs (by simp)]
      simp [advance, hred, reduce]
  | ofPrimary _ ih => exact ih
  | @member ts e m _ hm ih =>
      intro fs _
      obtain ⟨s, hrun, hs⟩ := ih fs trivial
      refine ⟨.done fs (.member e m), ?_, rfl⟩
      rw [run_append_of_run hrun, run, step_of_operand? hs (by simp)]
      show run (.dotted fs e) [.word m] = _
      simp [run_singleton, step, hm]
  | @index ts us e i _ _ ihe ihi =>
      intro fs _
      obtain ⟨s, hrun, hs⟩ := ihe fs trivial
      obtain ⟨s', hrun', gs, x, hs', hred⟩ := ihi (.index e :: fs) rfl
      refine ⟨.done fs (.index e i), ?_, rfl⟩
      rw [List.append_assoc, run_append_of_run hrun, List.cons_append, run,
        step_of_operand? hs (by simp)]
      show run (.start (.index e :: fs)) (us ++ [.punct "]"]) = _
      rw [run_append_of_run hrun', run_singleton, step_of_operand? hs' (by simp)]
      simp [advance, hred, reduce]
  | @callEmpty f hf =>
      intro fs _
      exact ⟨.done fs (.call f []), by simp [run, step, enter, hf], rfl⟩
  | @call ts e _ ih =>
      intro fs _
      obtain ⟨s, hrun, gs, x, f, args, last, hs, hred, rfl⟩ := ih fs trivial
      refine ⟨.done fs (.call f (args ++ [last])), ?_, rfl⟩
      rw [run_append_of_run hrun, run_singleton, step_of_operand? hs (by simp)]
      simp [advance, hred]
  | @firstArgument f ts e hf _ ih =>
      intro fs _
      obtain ⟨s, hrun, gs, x, hs, hred⟩ := ih (.argument f [] :: fs) rfl
      refine ⟨s, ?_, gs, x, f, [], e, hs, hred, rfl⟩
      simp only [run, step, enter, hf, Bool.false_eq_true, if_false, if_true]
      exact run_called hrun hs
  | @nextArgument f ts us args e _ _ ihf ihe =>
      intro fs _
      obtain ⟨s, hrun, gs, x, f', args', last, hs, hred, hcall⟩ := ihf fs trivial
      obtain ⟨rfl, rfl⟩ := Expr.call.inj hcall
      obtain ⟨s', hrun', gs', x', hs', hred'⟩ :=
        ihe (.argument f (args' ++ [last]) :: fs) rfl
      refine ⟨s', ?_, gs', x', f, args' ++ [last], e, hs', hred', rfl⟩
      rw [run_append_of_run hrun, run, step_of_operand? hs (by simp)]
      simpa [advance, hred] using hrun'
  | ofSuffixed _ ih =>
      intro fs _
      obtain ⟨s, hrun, hs⟩ := ih fs trivial
      exact ⟨s, hrun, fs, _, hs, fun _ => rfl⟩
  | @sign s op ts e hop _ ih =>
      intro fs _
      obtain ⟨s', hrun, gs, x, hs, hred⟩ := ih (.sign op :: fs) trivial
      -- Only a parenthesis behaves differently where an operand may start.
      have hpar : s ≠ "(" := by
        rintro rfl
        exact absurd hop (by simp [unaryOp?])
      exact ⟨s', by simpa [run, step, enter, hop, hpar] using hrun, gs, x, hs, hred⟩
  | ofUnary _ ih =>
      intro fs _
      obtain ⟨s, hrun, gs, x, hs, hred⟩ := ih fs trivial
      exact ⟨s, hrun, gs, x, hs, fun j _ => hred j⟩
  | @ofTighter k ts e _ ih =>
      intro fs hfs
      obtain ⟨s, hrun, gs, x, hs, hred⟩ := ih fs (isOpen_mono hfs (Nat.le_succ k))
      exact ⟨s, hrun, gs, x, hs, fun j hj => hred j (Nat.le_of_succ_le hj)⟩
  | @operation s k op ts us l r hop _ _ ihl ihr =>
      intro fs hfs
      obtain ⟨s₁, hrun₁, gs₁, x₁, hs₁, hred₁⟩ := ihl fs hfs
      -- The operator closes all that binds at least as tightly on its left, which
      -- makes the level associate to the left.
      have hl : reduce (k + 1) gs₁ x₁ = (fs, l) := by
        rw [hred₁ (k + 1) (Nat.le_refl _), reduce_of_isOpen hfs]
      obtain ⟨s₂, hrun₂, gs₂, x₂, hs₂, hred₂⟩ :=
        ihr (.operand k op l :: fs) (by simp [Admits, isOpen])
      have hpar : s ≠ "(" := by
        rintro rfl
        exact absurd hop (by simp [binaryOp?])
      refine ⟨s₂, ?_, gs₂, x₂, hs₂, fun j hj => ?_⟩
      · rw [run_append_of_run hrun₁, run, step_of_operand? hs₁ (by simpa using hpar),
          advance_binaryOp? hop hl]
        exact hrun₂
      · rw [hred₂ j (by omega), reduce, if_pos (by omega)]
  | ofBinary _ ih =>
      intro fs hfs
      obtain ⟨s, hrun, gs, x, hs, hred⟩ := ih fs hfs
      exact ⟨s, hrun, gs, x, hs, hred 8 (by omega)⟩
  | @assign s op ts us t v hop _ _ iht ihv =>
      intro fs hfs
      obtain ⟨s₁, hrun₁, gs₁, x₁, hs₁, hred₁⟩ := iht fs trivial
      -- The target is unary, so reducing it meets no binary operator.
      have ht : reduce 0 gs₁ x₁ = (fs, t) := by
        rw [hred₁ 0, reduce_of_isOpen (isOpen_mono hfs (Nat.zero_le 7))]
      obtain ⟨s₂, hrun₂, gs₂, x₂, hs₂, hred₂⟩ := ihv (.target op t :: fs) rfl
      have hpar : s ≠ "(" := by
        rintro rfl
        exact absurd hop (by simp [assignOp?])
      refine ⟨s₂, ?_, gs₂, x₂, hs₂, ?_⟩
      · rw [run_append_of_run hrun₁, run, step_of_operand? hs₁ (by simpa using hpar),
          advance_assignOp? hop ht hfs]
        exact hrun₂
      · rw [hred₂, reduce, if_pos (by decide)]

/-- The reader finds the tree of every derivation. -/
theorem read_of_derives {ts : List Token} {e : Expr} (h : Derives .assignment ts e) :
    read ts = some e := by
  obtain ⟨s, hrun, gs, x, hs, hred⟩ := run_of_derives h [] rfl
  simp [read, hrun, hs, hred, reduce]

/-- **The grammar is unambiguous.** -/
theorem Derives.unique {ts : List Token} {d e : Expr} (hd : Derives .assignment ts d)
    (he : Derives .assignment ts e) : d = e :=
  Option.some.inj ((read_of_derives hd).symm.trans (read_of_derives he))

end Shaderwright.Glsl
