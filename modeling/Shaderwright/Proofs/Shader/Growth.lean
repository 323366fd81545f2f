import Mathlib.Data.List.Nodup
import Shaderwright.Proofs.Shader.Names

/-!
# Shaders grow at their ends

Whatever is called on a shader, at the top level or inside of a block, nothing that is
there is taken away, renamed or moved: lists of declarations and the main function get
longer, or stay as they are (`Extends`). What a list gets is a name that it did not have
and that is no wildcard, since a wildcard never declares and the names that features make
up never begin or end with a star.

Asking for a variable hands out its place in its list (`acquire`); changes are then made
to the variable at that place and to no other.
-/

namespace Shaderwright

/-! ## Names and wildcards -/

/-- A name that is no wildcard: there is no star at either end. -/
def IsPlainName (x : String) : Prop :=
  x.toList.head? ≠ some '*' ∧ x.toList.getLast? ≠ some '*'
deriving Decidable

namespace Pattern

/-- A pattern that is no wildcard stands for itself. -/
theorem ofString_of_plain {pattern : String} (h : IsPlainName pattern) :
    ofString pattern = .exact pattern := by
  obtain ⟨hhead, hlast⟩ := h
  rw [ofString]
  cases hcs : pattern.toList with
  | nil => rfl
  | cons c cs =>
      have hc : c ≠ '*' := by
        rintro rfl
        exact hhead (by rw [hcs]; rfl)
      rw [hcs] at hlast
      simp [hc, hlast]

theorem isWildcard_iff {pattern : String} :
    (ofString pattern).isWildcard = true ↔ ¬ IsPlainName pattern := by
  constructor
  · intro h hplain
    rw [ofString_of_plain hplain] at h
    exact nomatch h
  · intro h
    rw [ofString]
    split
    · rfl
    · next hcons =>
        split
        · rfl
        · next hlast =>
            refine absurd ⟨?_, hlast⟩ h
            cases hcs : pattern.toList with
            | nil => simp
            | cons c cs =>
                rw [List.head?_cons]
                rintro ⟨rfl⟩
                exact hcons cs hcs

/-- What a pattern without a wildcard accepts is its own name. -/
theorem accepts_of_plain {pattern x : String} (h : IsPlainName pattern) :
    (ofString pattern).accepts x = (x == pattern) := by
  rw [ofString_of_plain h]
  rfl

end Pattern

/-! ## The place of the last match -/

/-- Changing the last match is changing the element at its place. -/
theorem updateLast?_eq_map (p : α → Bool) (f : α → α) (as : List α) :
    updateLast? p f as = (lastIndex? p as).map fun place => as.modify place f := by
  induction as with
  | nil => rfl
  | cons a as ih =>
      rw [updateLast?, lastIndex?, ih]
      cases hlast : lastIndex? p as with
      | some place => rfl
      | none => by_cases hp : p a = true <;> simp [hp]

theorem lastIndex?_eq_none_iff {p : α → Bool} {as : List α} :
    lastIndex? p as = none ↔ ∀ a ∈ as, p a = false := by
  rw [← findLast?_eq_none_iff, ← lastIndex?_bind_getElem?]
  cases h : lastIndex? p as with
  | none => simp
  | some place =>
      have hlt := lastIndex?_lt h
      simp [hlt]

/-- At the place of the last match there is a match. -/
theorem lastIndex?_eq_some {p : α → Bool} {as : List α} {place : Nat}
    (h : lastIndex? p as = some place) : ∃ a, as[place]? = some a ∧ p a = true := by
  have hlt := lastIndex?_lt h
  have hfind := lastIndex?_bind_getElem? p as
  rw [h, Option.bind_some, List.getElem?_eq_getElem hlt] at hfind
  exact ⟨as[place], List.getElem?_eq_getElem hlt, (mem_of_findLast? hfind.symm).2⟩

/-- Changes keep the names, wherever they are made. -/
theorem Variable.names_modify (vars : List Variable) (place : Nat) (changes : List Change) :
    (vars.modify place fun v => v.changeAll changes).map name = vars.map name := by
  induction vars generalizing place with
  | nil => simp
  | cons v vars ih =>
      cases place with
      | zero => simp [name_changeAll]
      | succ place => simp [ih]

namespace Shader

/-! ## Asking for a variable -/

/-- Sees to it that the variable which a pattern stands for is there, and gives its place
in its list. -/
def acquire (s : Shader) (storage : Storage) (pattern : String) : Except Fault (Shader × Nat) :=
  match Variable.lookupIndex? pattern (s.vars storage) with
  | some place => .ok (s, place)
  | none =>
      if (Pattern.ofString pattern).isWildcard then .error (.wildcardUnmatched pattern)
      else
        .ok (s.withVars storage (s.vars storage ++ [.plain storage.role .unset pattern]),
          (s.vars storage).length)

/-- The shader with changes made to the variable at a place. -/
def changeAt (s : Shader) (storage : Storage) (place : Nat) (changes : List Variable.Change) :
    Shader :=
  s.withVars storage ((s.vars storage).modify place fun v => v.changeAll changes)

theorem withVars_withVars (s : Shader) (storage : Storage) (vars vars' : List Variable) :
    (s.withVars storage vars).withVars storage vars' = s.withVars storage vars' := by
  cases storage <;> rfl

/-- To declare is to ask for a variable and to change it. -/
theorem declare_eq (s : Shader) (storage : Storage) (pattern : String)
    (changes : List Variable.Change) :
    s.declare storage pattern changes
      = (s.acquire storage pattern).map fun (t, place) => t.changeAt storage place changes := by
  by_cases hplain : IsPlainName pattern
  · have hwild : (Pattern.ofString pattern).isWildcard = false := by
      simpa using mt Pattern.isWildcard_iff.1 (not_not.2 hplain)
    rw [declare, Pattern.ofString_of_plain hplain, acquire, hwild]
    simp only [put, Variable.put, updateLast?_eq_map, Variable.lookupIndex?,
      Pattern.accepts_of_plain hplain]
    cases hlast : lastIndex? (fun v : Variable => v.name == pattern) (s.vars storage) with
    | some place => rfl
    | none =>
        simp [Except.map, changeAt, vars_withVars, withVars_withVars, List.modify_eq_take_drop]
  · have hwild := Pattern.isWildcard_iff.2 hplain
    rw [acquire, hwild, declare, Variable.lookupIndex?]
    cases hpattern : Pattern.ofString pattern with
    | exact name =>
        rw [hpattern] at hwild
        cases hwild
    | containing part =>
        simp only [updateLast?_eq_map, Pattern.accepts]
        cases hlast : lastIndex? (fun v : Variable => Text.contains v.name part)
            (s.vars storage) with
        | some place => rfl
        | none => rfl

/-- **A plain name hands out the variable of exactly that name**, which is declared if it
was not there. -/
theorem acquire_of_plain (s : Shader) (storage : Storage) {pattern : String}
    (h : IsPlainName pattern) : ∃ t place v, s.acquire storage pattern = .ok (t, place) ∧
      (t.vars storage)[place]? = some v ∧ v.name = pattern ∧
      (t = s ∨ pattern ∉ s.names storage ∧
        t = s.withVars storage (s.vars storage ++ [.plain storage.role .unset pattern])) := by
  have hwild : (Pattern.ofString pattern).isWildcard = false := by
    simpa using mt Pattern.isWildcard_iff.1 (not_not.2 h)
  rw [acquire, hwild]
  cases hlast : Variable.lookupIndex? pattern (s.vars storage) with
  | some place =>
      obtain ⟨v, hv, haccepts⟩ := lastIndex?_eq_some hlast
      rw [Pattern.accepts_of_plain h] at haccepts
      exact ⟨s, place, v, rfl, hv, by simpa using haccepts, .inl rfl⟩
  | none =>
      have hnone := lastIndex?_eq_none_iff.1 hlast
      simp only [Pattern.accepts_of_plain h] at hnone
      refine ⟨_, _, .plain storage.role .unset pattern, rfl, ?_, rfl, .inr ⟨?_, rfl⟩⟩
      · rw [vars_withVars, if_pos rfl, List.getElem?_concat_length]
      · simpa [names] using hnone

/-- **A wildcard never declares**: it hands out a variable that matches, or is refused
when none does. -/
theorem acquire_of_wildcard (s : Shader) (storage : Storage) {pattern : String}
    (h : ¬ IsPlainName pattern) :
    (∃ place v, s.acquire storage pattern = .ok (s, place) ∧ (s.vars storage)[place]? = some v ∧
      (Pattern.ofString pattern).accepts v.name = true) ∨
    (s.acquire storage pattern = .error (.wildcardUnmatched pattern) ∧
      ∀ v ∈ s.vars storage, (Pattern.ofString pattern).accepts v.name = false) := by
  rw [acquire, Pattern.isWildcard_iff.2 h]
  cases hlast : Variable.lookupIndex? pattern (s.vars storage) with
  | some place =>
      obtain ⟨v, hv, haccepts⟩ := lastIndex?_eq_some hlast
      exact .inl ⟨place, v, rfl, hv, haccepts⟩
  | none => exact .inr ⟨rfl, lastIndex?_eq_none_iff.1 hlast⟩

/-- What asking for a variable comes to. Whatever is then changed is changed in the variable
that was handed out. -/
structure HandsOut (s : Shader) (storage : Storage) (pattern : String) : Prop where
  plain : IsPlainName pattern → ∃ t place v, s.acquire storage pattern = .ok (t, place) ∧
    (t.vars storage)[place]? = some v ∧ v.name = pattern
  wildcard : ¬ IsPlainName pattern →
    (∃ place v, s.acquire storage pattern = .ok (s, place) ∧ (s.vars storage)[place]? = some v ∧
      (Pattern.ofString pattern).accepts v.name = true) ∨
    (s.acquire storage pattern = .error (.wildcardUnmatched pattern) ∧
      ∀ v ∈ s.vars storage, (Pattern.ofString pattern).accepts v.name = false)
  declare : ∀ changes, s.declare storage pattern changes
    = (s.acquire storage pattern).map fun (t, place) => t.changeAt storage place changes

theorem handsOut (s : Shader) (storage : Storage) (pattern : String) :
    s.HandsOut storage pattern where
  plain h := by
    obtain ⟨t, place, v, hacquire, hv, hname, -⟩ := s.acquire_of_plain storage h
    exact ⟨t, place, v, hacquire, hv, hname⟩
  wildcard := s.acquire_of_wildcard storage
  declare := s.declare_eq storage pattern

theorem names_withVars (s : Shader) (storage other : Storage) (vars : List Variable) :
    (s.withVars storage vars).names other
      = if other = storage then vars.map Variable.name else s.names other := by
  rw [names, vars_withVars]
  split <;> rfl

/-- **A declaration leaves the names as they are**, or puts a new plain one behind those of
its list. -/
theorem declare_cases {s u : Shader} {storage : Storage} {pattern : String}
    {changes : List Variable.Change} (hu : s.declare storage pattern changes = .ok u) :
    ∃ vars, u = s.withVars storage vars ∧ (vars.map Variable.name = s.names storage ∨
      IsPlainName pattern ∧ pattern ∉ s.names storage ∧
        vars.map Variable.name = s.names storage ++ [pattern]) := by
  rw [declare_eq] at hu
  by_cases hplain : IsPlainName pattern
  · obtain ⟨t, place, v, hacquire, -, -, ht⟩ := s.acquire_of_plain storage hplain
    rw [hacquire] at hu
    obtain rfl := Except.ok.inj hu
    rcases ht with rfl | ⟨hfresh, rfl⟩
    · exact ⟨_, rfl, .inl (Variable.names_modify ..)⟩
    · refine ⟨_, withVars_withVars .., .inr ⟨hplain, hfresh, ?_⟩⟩
      rw [Variable.names_modify, vars_withVars, if_pos rfl]
      simp [names, Variable.plain]
  · rcases s.acquire_of_wildcard storage hplain with ⟨place, v, hacquire, -, -⟩ | ⟨hacquire, -⟩
    · rw [hacquire] at hu
      obtain rfl := Except.ok.inj hu
      exact ⟨_, rfl, .inl (Variable.names_modify ..)⟩
    · rw [hacquire] at hu
      cases hu

/-! ## What grows, and what stays -/

/-- The second shader is the first with more in it. -/
structure Extends (s t : Shader) : Prop where
  name : t.name = s.name
  stage : t.stage = s.stage
  depth : t.depth = s.depth
  names : ∀ storage, s.names storage <+: t.names storage
  statements : s.statements <+: t.statements

theorem Extends.refl (s : Shader) : s.Extends s where
  name := rfl
  stage := rfl
  depth := rfl
  names _ := List.prefix_refl _
  statements := List.prefix_refl _

theorem Extends.trans {s t u : Shader} (hst : s.Extends t) (htu : t.Extends u) : s.Extends u where
  name := htu.name.trans hst.name
  stage := htu.stage.trans hst.stage
  depth := htu.depth.trans hst.depth
  names storage := (hst.names storage).trans (htu.names storage)
  statements := hst.statements.trans htu.statements

/-- Names are declared once in a list, and none of them is a wildcard. -/
structure Named (s : Shader) : Prop where
  nodup : ∀ storage, (s.names storage).Nodup
  plain : ∀ storage, ∀ x ∈ s.names storage, IsPlainName x

theorem named_empty (name : String) (stage : Stage) : (Shader.empty name stage).Named where
  nodup storage := by cases storage <;> exact List.nodup_nil
  plain storage x hx := by cases storage <;> simp [Shader.empty, names, vars] at hx

theorem extends_withVars (s : Shader) {storage : Storage} {vars : List Variable}
    (h : s.names storage <+: vars.map Variable.name) : s.Extends (s.withVars storage vars) where
  name := by cases storage <;> rfl
  stage := stage_withVars ..
  depth := depth_withVars ..
  names other := by
    rw [names_withVars]
    split
    · next heq => exact heq ▸ h
    · exact List.prefix_refl _
  statements := (statements_withVars s storage vars).symm ▸ List.prefix_refl _

theorem Named.withVars {s : Shader} (hs : s.Named) {storage : Storage} {vars : List Variable}
    (hnodup : (vars.map Variable.name).Nodup)
    (hplain : ∀ x ∈ vars.map Variable.name, IsPlainName x) : (s.withVars storage vars).Named where
  nodup other := by
    rw [names_withVars]
    split
    · exact hnodup
    · exact hs.nodup other
  plain other := by
    rw [names_withVars]
    split
    · exact hplain
    · exact hs.plain other

/-- A list of declarations whose names are those that were there, or those and a new one
behind them. -/
theorem Named.withVars_of_cases {s : Shader} (hs : s.Named) {storage : Storage} {x : String}
    {vars : List Variable} (h : vars.map Variable.name = s.names storage ∨
      IsPlainName x ∧ x ∉ s.names storage ∧ vars.map Variable.name = s.names storage ++ [x]) :
    (s.withVars storage vars).Named := by
  rcases h with hsame | ⟨hx, hfresh, hnew⟩
  · apply hs.withVars <;> rw [hsame]
    · exact hs.nodup storage
    · exact hs.plain storage
  · apply hs.withVars <;> rw [hnew]
    · exact List.nodup_append_comm.2 (List.nodup_cons.2 ⟨hfresh, hs.nodup storage⟩)
    · intro y hy
      rcases List.mem_append.1 hy with hy | hy
      · exact hs.plain storage y hy
      · exact List.mem_singleton.1 hy ▸ hx

theorem extends_declare {s u : Shader} {storage : Storage} {pattern : String}
    {changes : List Variable.Change} (hu : s.declare storage pattern changes = .ok u) :
    s.Extends u := by
  obtain ⟨vars, rfl, hvars⟩ := declare_cases hu
  apply extends_withVars
  rcases hvars with hsame | ⟨-, -, hnew⟩
  · exact hsame ▸ List.prefix_refl _
  · exact hnew ▸ List.prefix_append ..

theorem Named.declare {s u : Shader} (hs : s.Named) {storage : Storage} {pattern : String}
    {changes : List Variable.Change} (hu : s.declare storage pattern changes = .ok u) :
    u.Named := by
  obtain ⟨vars, rfl, hvars⟩ := declare_cases hu
  exact hs.withVars_of_cases hvars

theorem extends_push (s : Shader) (line : Line) : s.Extends (s.push line) where
  name := rfl
  stage := rfl
  depth := rfl
  names storage := by
    have hnames : (s.push line).names storage = s.names storage :=
      congrArg (List.map Variable.name) (vars_push s line storage)
    exact hnames ▸ List.prefix_refl _
  statements := List.prefix_append ..

/-- Names do not depend on the main function. -/
theorem Named.of_vars {s t : Shader} (hs : s.Named)
    (h : ∀ storage, t.vars storage = s.vars storage) : t.Named where
  nodup storage := by
    rw [names, h storage]
    exact hs.nodup storage
  plain storage := by
    rw [names, h storage]
    exact hs.plain storage

/-- A block that is closed again leaves the depth as it was. -/
theorem Extends.closeIf {s u : Shader} {condition : Expr} (h : (s.openIf condition).Extends u) :
    s.Extends u.closeIf where
  name := h.name
  stage := h.stage
  depth := congrArg (· - 1) h.depth
  names storage := by
    have hnames := h.names storage
    rw [Shader.names, vars_openIf] at hnames
    rw [Shader.names, Shader.names, vars_closeIf]
    exact hnames
  statements :=
    ((List.prefix_append ..).trans h.statements).trans (List.prefix_append ..)

/-! ## Features -/

theorem extends_edit (s : Shader) (e : Edit) : s.Extends (s.edit e) := by
  cases e with
  | declare storage x changes =>
      apply extends_withVars
      rw [Variable.names_put]
      split
      · exact List.prefix_refl _
      · exact List.prefix_append ..
  | statement e => exact extends_push ..
  | conditional condition body => exact (extends_push ..).closeIf

theorem extends_editAll (s : Shader) (es : List Edit) : s.Extends (s.editAll es) := by
  induction es generalizing s with
  | nil => exact .refl s
  | cons e es ih => exact (extends_edit s e).trans (ih (s.edit e))

theorem extends_extend (s : Shader) (f : Feature) : s.Extends (s.extend f) := by
  rcases s.extend_cases f with h | ⟨es, -, h⟩
  · rw [h]
    exact .refl s
  · rw [h]
    exact extends_editAll s es

theorem extends_extendAll (s : Shader) (features : List Feature) :
    s.Extends (s.extendAll features) := by
  induction features generalizing s with
  | nil => exact .refl s
  | cons f features ih => exact (extends_extend s f).trans (ih (s.extend f))

theorem Named.edit {s : Shader} (hs : s.Named) {e : Edit}
    (he : ∀ storage, ∀ x ∈ Edit.names storage [e], IsPlainName x) : (s.edit e).Named := by
  cases e with
  | declare storage x changes =>
      have hx : IsPlainName x := he storage x (by simp [Edit.names])
      apply hs.withVars_of_cases (x := x)
      rw [Variable.names_put]
      split
      · exact .inl rfl
      · next hfresh => exact .inr ⟨hx, hfresh, rfl⟩
  | statement e => exact hs.of_vars fun storage => vars_push ..
  | conditional condition body => exact hs.of_vars fun storage => by simp [Shader.edit, next]

theorem Named.editAll {s : Shader} (hs : s.Named) {es : List Edit}
    (hes : ∀ storage, ∀ x ∈ Edit.names storage es, IsPlainName x) : (s.editAll es).Named := by
  induction es generalizing s with
  | nil => exact hs
  | cons e es ih =>
      have hsplit : ∀ storage, Edit.names storage (e :: es)
          = Edit.names storage [e] ++ Edit.names storage es :=
        fun storage => List.filterMap_append (l := [e]) ..
      simp only [hsplit, List.forall_mem_append] at hes
      exact ih (hs.edit fun storage => (hes storage).1) fun storage => (hes storage).2

end Shader

namespace Feature

/-- A name with a plain beginning is plain if a suffix of a stage is behind it. -/
theorem isPlainName_suffixed {x : String} (hx : x.toList.head? ≠ some '*') (stage : Stage) :
    IsPlainName (x ++ "_" ++ stage.suffix) := by
  constructor
  · cases hcs : x.toList with
    | nil => simp [hcs]
    | cons c cs =>
        rw [hcs] at hx
        simpa [hcs] using hx
  · cases stage <;> simp [Stage.suffix]

theorem head?_stemOf {x : String} (hx : x.toList.head? ≠ some '*') :
    (stemOf x).toList.head? ≠ some '*' := by
  obtain ⟨rest, hrest⟩ := stemOf_prefix x
  intro h
  rw [← hrest, List.head?_append, h] at hx
  exact hx rfl

theorem head?_stem (slot : Slot) : slot.stem.toList.head? ≠ some '*' := by
  cases slot <;> decide

/-- **No feature declares a wildcard**, given that the inputs of the stage and the outputs
that it takes in are none. -/
theorem isPlainName_of_yields {s : Shader} {f : Feature} {es : List Edit} (h : f.Yields s es)
    (hs : s.Named) (hf : ∀ previous, f = .chainFrom previous → previous.Named) :
    ∀ storage, ∀ x ∈ Edit.names storage es, IsPlainName x := by
  have hparameters : ∀ x ∈ parameterNames, IsPlainName x := by decide
  have hlocals : ∀ x ∈ localNames, IsPlainName x := by decide
  have hdeclares := declares_of_yields h
  intro storage x hx
  cases storage with
  | input =>
      cases hdeclares.inputs x hx with
      | ofSlot slot => cases slot <;> decide
      | chained hprevious hx => exact (hf _ hprevious).plain .output x hx
  | output =>
      cases hdeclares.outputs x hx with
      | color h => decide
      | slot slot => exact isPlainName_suffixed (head?_stem slot) s.stage
      | forwarded hsource =>
          have hplain := hs.plain .input _ (List.mem_map_of_mem hsource)
          exact isPlainName_suffixed (head?_stemOf hplain.1) s.stage
  | parameter => exact hparameters x (hdeclares.parameters x hx)
  | «local» => exact hlocals x (hdeclares.locals x hx)

end Feature

namespace Shader

theorem Named.extend {s : Shader} (hs : s.Named) (f : Feature)
    (hf : ∀ previous, f = .chainFrom previous → previous.Named) : (s.extend f).Named := by
  rcases s.extend_cases f with h | ⟨es, hes, h⟩
  · rwa [h]
  · rw [h]
    exact hs.editAll (Feature.isPlainName_of_yields hes hs hf)

/-! ## Whole runs -/

/-- What calls make of a shader, one after the other: variables are asked for and changed,
statements are appended, features are added, and blocks are opened, filled in the same way
and closed. The stages chained from are made by such calls as well. A call that is refused
leaves the shader as it was, as if it had not been made. -/
inductive Assembles : Shader → Shader → Prop
  | start (s : Shader) : Assembles s s
  | declare {s t u : Shader} (h : Assembles s t) {storage : Storage} {pattern : String}
      {changes : List Variable.Change} (hu : t.declare storage pattern changes = .ok u) :
      Assembles s u
  | next {s t : Shader} (h : Assembles s t) (e : Expr) : Assembles s (t.next e)
  | feature {s t : Shader} (h : Assembles s t) {f : Feature}
      (hf : ∀ previous, f ≠ .chainFrom previous) : Assembles s (t.extend f)
  | chain {s t : Shader} (h : Assembles s t) {name : String} {stage : Stage} {previous : Shader}
      (hprevious : Assembles (Shader.empty name stage) previous) :
      Assembles s (t.extend (.chainFrom previous))
  | block {s t u : Shader} (h : Assembles s t) (condition : Expr)
      (hbody : Assembles (t.openIf condition) u) : Assembles s u.closeIf

theorem Assembles.extends {s t : Shader} (h : Assembles s t) : s.Extends t := by
  induction h with
  | start s => exact .refl s
  | declare h hu ih => exact ih.trans (extends_declare hu)
  | next h e ih => exact ih.trans (extends_push ..)
  | feature h hf ih => exact ih.trans (extends_extend ..)
  | chain h hprevious ih => exact ih.trans (extends_extend ..)
  | block h condition hbody ih ihbody => exact ih.trans ihbody.closeIf

theorem Assembles.named {s t : Shader} (h : Assembles s t) (hs : s.Named) : t.Named := by
  induction h with
  | start s => exact hs
  | declare h hu ih => exact (ih hs).declare hu
  | next h e ih => exact (ih hs).of_vars fun storage => vars_push ..
  | feature h hf ih =>
      exact (ih hs).extend _ fun previous hprevious => absurd hprevious (hf previous)
  | chain h hprevious ih ihprevious =>
      refine (ih hs).extend _ ?_
      rintro previous ⟨rfl⟩
      exact ihprevious (named_empty ..)
  | block h condition hbody ih ihbody =>
      have hopen := (ih hs).of_vars fun storage => vars_openIf _ condition storage
      exact (ihbody hopen).of_vars fun storage => vars_closeIf ..

/-- What can be seen of a shader at any time, from inside of an open block as well. A call
that is refused leaves the shader as it was, as if it had not been made. -/
inductive Reachable : Shader → Prop
  | empty (name : String) (stage : Stage) : Reachable (Shader.empty name stage)
  | declare {s u : Shader} (h : Reachable s) {storage : Storage} {pattern : String}
      {changes : List Variable.Change} (hu : s.declare storage pattern changes = .ok u) :
      Reachable u
  | next {s : Shader} (h : Reachable s) (e : Expr) : Reachable (s.next e)
  | extend {s : Shader} (h : Reachable s) {f : Feature}
      (hprevious : ∀ previous, f = .chainFrom previous → Reachable previous) :
      Reachable (s.extend f)
  | openIf {s : Shader} (h : Reachable s) (condition : Expr) : Reachable (s.openIf condition)
  | closeIf {s : Shader} (h : Reachable s) (hopen : 1 < s.depth) : Reachable s.closeIf

theorem Reachable.named {s : Shader} (h : s.Reachable) : s.Named := by
  induction h with
  | empty name stage => exact named_empty name stage
  | declare h hu ih => exact ih.declare hu
  | next h e ih => exact ih.of_vars fun storage => vars_push ..
  | extend h hprevious ih ihprevious => exact ih.extend _ ihprevious
  | openIf h condition ih => exact ih.of_vars fun storage => vars_openIf ..
  | closeIf h hopen ih => exact ih.of_vars fun storage => vars_closeIf ..

/-- A variable of a plain name can always be asked for and changed. -/
theorem Reachable.put {s : Shader} (h : s.Reachable) {x : String} (hx : IsPlainName x)
    (storage : Storage) (changes : List Variable.Change) : (s.put storage x changes).Reachable := by
  have hput : s.declare storage x changes = .ok (s.put storage x changes) := by
    rw [Shader.declare, Pattern.ofString_of_plain hx]
  exact h.declare hput

/-- **Nothing that is there is touched.** Of whatever is made from a fresh stage, each list
has its names once and no wildcard among them. Calls only ever append, inside of a block as
well, and asking for a variable finds it by its name or declares it, a wildcard only finds. -/
theorem named_of_assembles {name : String} {stage : Stage} {s : Shader}
    (h : Assembles (Shader.empty name stage) s) :
    s.Named ∧ (∀ t u, Assembles t u → t.Extends u) ∧
      ∀ storage pattern, s.HandsOut storage pattern :=
  ⟨h.named (named_empty name stage), fun _ _ => Assembles.extends, s.handsOut⟩

/-- A vertex stage that passes a coordinate on. -/
def sending : Shader :=
  ((Shader.empty "sending" .vertex).extend (.vertexInputs .all)).extend (.passThrough "*coord_in")

/-- A stage that takes the coordinate in and carries it on inside of a block, under a
pattern. -/
def carrying : Shader :=
  ((((Shader.empty "carrying" .fragment).extend (.chainFrom sending)).openIf
    (.literal "true")).extend (.passThrough "*_vsh")).closeIf

theorem named_carrying :
    carrying.names .input = ["texcoord_vsh"] ∧ carrying.names .output = ["texcoord_fsh"] ∧
      carrying.Named ∧ (Shader.empty "carrying" .fragment).Extends carrying ∧
      carrying.HandsOut .input "*_vsh" := by
  have hsending : Assembles (Shader.empty "sending" .vertex) sending :=
    .feature (.feature (.start _) (by simp)) (by simp)
  have hcarrying : Assembles (Shader.empty "carrying" .fragment) carrying :=
    .block (.chain (.start _) hsending) _ (.feature (.start _) (by simp))
  obtain ⟨hnamed, hextends, hhands⟩ := named_of_assembles hcarrying
  exact ⟨by decide, by decide, hnamed, hextends _ _ hcarrying, hhands _ _⟩

end Shader

end Shaderwright
