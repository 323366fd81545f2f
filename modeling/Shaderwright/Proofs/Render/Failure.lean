import Shaderwright.Proofs.Render.Index

/-!
# Requests that fail

A build stops where it fails: at a file that cannot be read, at a stage that does not
compile, or at the link. By then it may have compiled stages, and these stay held under
their names. Nothing else is left of it: the programs with their tables and counters, the
index and the active program are as they were.

So a failed request takes no number. As long as the requests after it are answered as
they would be without it, a program gets the id that it would get without it. That needs
saying, because the stage objects of a failed build are shared like any others: a program
that names one of them may be built only thanks to the failure
(`failedBuild_shifts_ids`).
-/

namespace Shaderwright

variable {δ : Type} [Device δ]

namespace Context

/-- Asked now, the request has an error for an answer. -/
def Fails (c : Context δ) : Request δ → Prop
  | .compose shaders => ∃ e, (c.compose shaders).1 = .error e
  | .fixed read program => ∃ e, (c.fixed read program).1 = .error e
  | .releaseStages => False
  | .activate id => ∃ e, (c.activate id).1 = .error e
  | .locate name => ∃ e, (c.locate name).1 = .error e
  | .set name value => ∃ e, (c.set name value).1 = .error e
  | .bindTexture name target texture => ∃ e, (c.bindTexture name target texture).1 = .error e
  | .stream aggregate => ∃ e, (c.stream aggregate).1 = .error e

/-! ## What a failed request leaves -/

section
variable {c : Context δ}

theorem withActive_eq_of_error {α : Type} {work : Bound δ → α × Bound δ} {e : RenderError}
    (h : (c.withActive work).1 = .error e) : (c.withActive work).2 = c := by
  rw [withActive] at h ⊢
  cases hactive : c.activeProgram with
  | error e => rfl
  | ok active =>
      rw [hactive] at h
      cases h

theorem activate_eq_of_error {id : ProgramId} {e : RenderError}
    (h : (c.activate id).1 = .error e) : (c.activate id).2 = c := by
  rw [activate] at h ⊢
  cases hget : c.get? id with
  | none => rfl
  | some program =>
      rw [hget] at h
      cases h

theorem holds_serve {r : Request δ} (h : c.Fails r) : c.Holds (c.serve r) := by
  have hsame : ∀ {after : Context δ}, after = c → c.Holds after := by
    rintro _ rfl
    exact .refl _
  cases r with
  | compose shaders =>
      obtain ⟨e, he⟩ := h
      cases shaders with
      | nil => exact .refl c
      | cons first rest => exact holds_build he
  | fixed read program =>
      obtain ⟨e, he⟩ := h
      exact holds_build he
  | releaseStages => exact h.elim
  | activate id =>
      obtain ⟨e, he⟩ := h
      exact hsame (activate_eq_of_error he)
  | locate | set | bindTexture | stream =>
      obtain ⟨e, he⟩ := h
      exact hsame (withActive_eq_of_error he)

end

/-! ## The number of a program -/

/-- The id under which the program of a key is found, or would be built next. -/
def place (c : Context δ) (key : String) : ProgramId :=
  (c.find? key).getD ⟨c.cache.programs.length⟩

/-- Whoever gets a program for a key gets it under its place. -/
theorem eq_place_of_answer? {c : Context δ} {r : Request δ} {key : String} {id : ProgramId}
    (hkey : r.key? = some key) (h : c.answer? r = some id) : id = c.place key := by
  obtain ⟨recipe, rfl, -, hanswer⟩ := c.serve_of_key? hkey
  rw [hanswer, toOption_eq_some_iff] at h
  rcases c.build_cases recipe with ⟨found, hfound, hbuild⟩ | ⟨-, ⟨e, herror⟩, -⟩ |
    ⟨hnew, -, hok, -⟩
  · rw [hbuild] at h
    rw [place, hfound]
    exact (Except.ok.inj h).symm
  · exact nomatch herror.symm.trans h
  · rw [hok] at h
    rw [place, hnew]
    exact (Except.ok.inj h).symm

/-- Place by place, the requests are answered in one context as in the other. -/
def AnswersAlike (a b : Context δ) (requests : List (Request δ)) : Prop :=
  Always (fun before r => (a.serveAll before).answer? r = (b.serveAll before).answer? r) requests

section
variable {a b : Context δ}

/-- What is answered alike is found alike afterwards. -/
theorem find?_serveAll_alike (hfind : ∀ key id, a.find? key = some id ↔ b.find? key = some id)
    {requests : List (Request δ)} (h : a.AnswersAlike b requests) (key : String)
    (id : ProgramId) :
    (a.serveAll requests).find? key = some id ↔ (b.serveAll requests).find? key = some id := by
  induction requests generalizing a b with
  | nil => exact hfind key id
  | cons r rest ih =>
      have hanswer : a.answer? r = b.answer? r := h [] r rest rfl
      have hserve : ∀ key id,
          (a.serve r).find? key = some id ↔ (b.serve r).find? key = some id := by
        intro key id
        rw [find?_serve, find?_serve, hfind, hanswer]
      refine ih hserve ?_
      intro before s after hsplit
      exact h (r :: before) s after (by rw [hsplit, List.cons_append])

/-- The programs are counted by the index. -/
theorem Indexed.length_le (ha : a.Indexed) (hb : b.Indexed)
    (hfind : ∀ key id, a.find? key = some id ↔ b.find? key = some id) :
    a.cache.programs.length ≤ b.cache.programs.length := by
  by_contra hlt
  obtain ⟨key, hkey⟩ := ha.exists_key (Nat.lt_of_not_le hlt)
  exact absurd (hb.lt_of_find? ((hfind key _).1 hkey)) (Nat.lt_irrefl _)

theorem Indexed.place_eq (ha : a.Indexed) (hb : b.Indexed)
    (hfind : ∀ key id, a.find? key = some id ↔ b.find? key = some id) (key : String) :
    a.place key = b.place key := by
  have hlength := Nat.le_antisymm (ha.length_le hb hfind)
    (hb.length_le ha fun key id => (hfind key id).symm)
  have hsame : a.find? key = b.find? key := Option.ext (hfind key)
  rw [place, place, hsame, hlength]

end

/-! ## Failures are harmless -/

/-- What is left of a request that fails. -/
structure Harmless (c : Context (Watched δ)) (r : Request (Watched δ)) : Prop where
  programs : (c.serve r).cache.programs = c.cache.programs
  index : (c.serve r).cache.index = c.cache.index
  active : (c.serve r).active = c.active
  version : (c.serve r).cache.version = c.cache.version
  /-- All that the device was called to compile are stages of the request, and those that
  compiled are held. Until the stages are released, it is not called again under any of their
  keys. -/
  stages : ∃ attempts, Attempts c (c.serve r) attempts ∧
    (∀ a ∈ attempts, ∃ p ∈ r.parts c.cache.version, a.IsOf p) ∧
    ∀ later, (∀ s ∈ later, s ≠ .releaseStages) → ∃ more,
      Attempts (c.serve r) ((c.serve r).serveAll later) more ∧
        ∀ a ∈ more, a.key ∉ (attempts.filterMap Attempt.entry?).map Prod.fst
  /-- Asked again, under the same key, for a program, the context has it at the place where
  it would have it without the failure, as long as the answers in between are the same. -/
  place : ∀ later, c.AnswersAlike (c.serve r) later → ∀ again key id, r.key? = some key →
    again.key? = some key → ((c.serve r).serveAll later).answer? again = some id →
      id = (c.serveAll later).place key ∧
        ∀ other, (c.serveAll later).answer? again = some other → other = id

theorem Fails.ne_releaseStages {c : Context δ} {r : Request δ} (h : c.Fails r) :
    r ≠ .releaseStages := by
  rintro rfl
  exact h

end Context

end Shaderwright
