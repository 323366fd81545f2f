/-!
# Histories

A history is a list that grows at its end. Two things are said of one, both about an
entry and the entries before it: that it happened once, and that it is so always. Of two,
it is said what the later one has more than the earlier.
-/

namespace Shaderwright

/-- Some entry stands in `P` to what came before it. -/
def Happened (P : List α → α → Prop) (as : List α) : Prop :=
  ∃ before a after, as = before ++ a :: after ∧ P before a

/-- Every entry stands in `P` to what came before it. -/
def Always (P : List α → α → Prop) (as : List α) : Prop :=
  ∀ before a after, as = before ++ a :: after → P before a

/-- The second history is the first and then only entries that satisfy `P`. -/
def GrowsBy (P : α → Prop) (as bs : List α) : Prop :=
  ∃ more, bs = as ++ more ∧ ∀ a ∈ more, P a

theorem GrowsBy.refl (P : α → Prop) (as : List α) : GrowsBy P as as := ⟨[], by simp, by simp⟩

theorem GrowsBy.trans {P : α → Prop} {as bs cs : List α} (hab : GrowsBy P as bs)
    (hbc : GrowsBy P bs cs) : GrowsBy P as cs := by
  obtain ⟨more, rfl, hmore⟩ := hab
  obtain ⟨more', rfl, hmore'⟩ := hbc
  exact ⟨more ++ more', List.append_assoc .., List.forall_mem_append.2 ⟨hmore, hmore'⟩⟩

theorem GrowsBy.snoc {P : α → Prop} (as : List α) {a : α} (ha : P a) : GrowsBy P as (as ++ [a]) :=
  ⟨[a], rfl, by simpa using ha⟩

section
variable {P Q : List α → α → Prop} {as bs : List α} {a : α}

/-- An entry of a longer history is an earlier one or the last. -/
theorem split_snoc {before after : List α} {b : α} (h : as ++ [a] = before ++ b :: after) :
    (∃ rest, as = before ++ b :: rest) ∨ (before = as ∧ b = a) := by
  rcases List.eq_nil_or_concat after with rfl | ⟨rest, last, rfl⟩
  · obtain ⟨rfl, hlast⟩ := List.append_inj' h rfl
    have hb : b = a := by simpa using hlast.symm
    exact .inr ⟨rfl, hb⟩
  · rw [List.concat_eq_append, ← List.cons_append, ← List.append_assoc] at h
    exact .inl ⟨rest, (List.append_inj' h rfl).1⟩

/-- An entry that is the only one of its kind stands at one place. -/
theorem split_alone {P : α → Prop} {before after before' after' : List α} {b : α} (ha : P a)
    (halone : ∀ c ∈ before' ++ after', ¬ P c) (h : before ++ a :: after = before' ++ b :: after') :
    before = before' ∧ a = b ∧ after = after' := by
  have hin : a ∉ before' ++ after' := fun hmem => halone a hmem ha
  rcases List.append_eq_append_iff.1 h with ⟨between, hbefore, hafter⟩ | ⟨between, hbefore, hafter⟩
  · cases between with
    | nil =>
        obtain ⟨rfl, rfl⟩ := List.cons.inj hafter
        exact ⟨by simpa using hbefore.symm, rfl, rfl⟩
    | cons c between =>
        obtain ⟨rfl, -⟩ := List.cons.inj hafter
        exact absurd (by simp [hbefore]) hin
  · cases between with
    | nil =>
        obtain ⟨rfl, rfl⟩ := List.cons.inj hafter
        exact ⟨by simpa using hbefore, rfl, rfl⟩
    | cons c between =>
        obtain ⟨-, rfl⟩ := List.cons.inj hafter
        exact absurd (by simp) hin

theorem not_happened_nil : ¬ Happened P [] := by
  rintro ⟨before, a, after, h, -⟩
  simp at h

theorem Happened.append (h : Happened P as) (bs : List α) : Happened P (as ++ bs) := by
  obtain ⟨before, a, after, rfl, ha⟩ := h
  exact ⟨before, a, after ++ bs, by simp, ha⟩

theorem happened_snoc : Happened P (as ++ [a]) ↔ Happened P as ∨ P as a := by
  constructor
  · rintro ⟨before, b, after, h, hb⟩
    rcases split_snoc h with ⟨rest, has⟩ | ⟨rfl, rfl⟩
    · exact .inl ⟨before, b, rest, has, hb⟩
    · exact .inr hb
  · rintro (h | h)
    · exact h.append [a]
    · exact ⟨as, a, [], rfl, h⟩

theorem always_nil : Always P [] := by
  intro before a after h
  simp at h

theorem Always.imp (h : Always P as) (hle : ∀ before a, P before a → Q before a) :
    Always Q as :=
  fun before a after hsplit => hle before a (h before a after hsplit)

theorem Always.snoc (h : Always P as) (ha : P as a) : Always P (as ++ [a]) := by
  intro before b after hsplit
  rcases split_snoc hsplit with ⟨rest, has⟩ | ⟨rfl, rfl⟩
  · exact h before b rest has
  · exact ha

/-- Every further entry stands in `P` to the first history and what came after it. -/
theorem Always.append (h : Always P as) (hbs : Always (fun before => P (as ++ before)) bs) :
    Always P (as ++ bs) := by
  induction bs generalizing as with
  | nil => rwa [List.append_nil]
  | cons b bs ih =>
      have hb : P as b := by simpa using hbs [] b bs rfl
      rw [List.append_cons]
      refine ih (h.snoc hb) fun before c after hsplit => ?_
      have hc : P (as ++ b :: before) c :=
        hbs (b :: before) c after (by rw [hsplit, List.cons_append])
      rwa [List.append_cons] at hc

/-- What is new whenever it comes is there once. -/
theorem Always.nodup_filterMap {β : Type} {f : α → Option β}
    (h : Always (fun before a => ∀ b, f a = some b → b ∉ before.filterMap f) as) :
    (as.filterMap f).Nodup := by
  -- Induction on what is still to come, so that every entry meets the entries before it.
  suffices hall : ∀ after before, as = before ++ after → (before.filterMap f).Nodup →
      (as.filterMap f).Nodup from hall as [] rfl List.nodup_nil
  intro after
  induction after with
  | nil =>
      intro before hsplit hbefore
      rwa [hsplit, List.append_nil]
  | cons a rest ih =>
      intro before hsplit hbefore
      refine ih (before ++ [a]) (by simp [hsplit]) ?_
      rw [List.filterMap_append, List.nodup_append]
      cases ha : f a with
      | none => simp [ha, hbefore]
      | some b =>
          have hnew := h before a rest hsplit b ha
          refine ⟨hbefore, by simp [ha], fun x hx y hy hxy => hnew ?_⟩
          obtain rfl : y = b := by simpa [ha] using hy
          exact hxy ▸ hx

end

end Shaderwright
