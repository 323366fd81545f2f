import Mathlib.Data.List.Induction
import Mathlib.Data.List.Nodup
import Shaderwright.Render.Event

/-!
# Numbers by first appearance

Keys that may repeat are numbered in order: a key that is new gets the number of different
keys before it, and a key that is not gets the number of the first that equals it. This is
the place of the key once repetitions are taken out, and it stays the same whatever follows.
-/

namespace Shaderwright

section
variable {α β : Type} [DecidableEq α] [DecidableEq β]

theorem eraseDups_snoc (as : List α) (a : α) :
    (as ++ [a]).eraseDups = if a ∈ as then as.eraseDups else as.eraseDups ++ [a] := by
  rw [List.eraseDups_append]
  by_cases h : a ∈ as
  · simp [h, List.removeAll]
  · simp [h, List.removeAll, List.eraseDups_cons]

theorem eraseDups_map {f : α → β} (hf : Function.Injective f) (as : List α) :
    (as.map f).eraseDups = as.eraseDups.map f := by
  induction as using List.reverseRecOn with
  | nil => rfl
  | append_singleton as a ih =>
      have hmem : f a ∈ as.map f ↔ a ∈ as := List.mem_map_of_injective hf
      rw [List.map_append, List.map_singleton, eraseDups_snoc, eraseDups_snoc, ih]
      by_cases h : a ∈ as <;> simp only [hmem, h, if_true, if_false, List.map_append,
        List.map_singleton]

theorem idxOf_map {f : α → β} (hf : Function.Injective f) (as : List α) (a : α) :
    (as.map f).idxOf (f a) = as.idxOf a := by
  rw [List.idxOf, List.idxOf, List.findIdx_map]
  congr 1
  funext b
  simp [hf.eq_iff]

/-- The number of a key among keys that may repeat: the place at which it appears first, if
repetitions are not counted. -/
def numberOf (keys : List α) (key : α) : ProgramId := ⟨keys.eraseDups.idxOf key⟩

/-- A key that is new gets the number of keys before it, repetitions not counted; one that
is not gets the number of the first that equals it. -/
structure NumberedByAppearance (keys : List α) (ids : List ProgramId) : Prop where
  length : ids.length = keys.length
  new : ∀ i key, keys[i]? = some key → key ∉ keys.take i →
    ids[i]? = some ⟨(keys.take i).eraseDups.length⟩
  again : ∀ i key, keys[i]? = some key → key ∈ keys.take i → ids[i]? = ids[keys.idxOf key]?

/-- A key stands at its number, once repetitions are taken out. -/
theorem getElem?_numberOf {keys : List α} {key : α} (h : key ∈ keys) :
    keys.eraseDups[(numberOf keys key).index]? = some key :=
  List.getElem?_eq_some_iff.2
    ⟨List.idxOf_lt_length_of_mem (List.mem_eraseDups.2 h), List.getElem_idxOf _⟩

theorem numberOf_append {keys : List α} {key : α} (h : key ∈ keys) (more : List α) :
    numberOf (keys ++ more) key = numberOf keys key := by
  rw [numberOf, numberOf, List.eraseDups_append,
    List.idxOf_append_of_mem (List.mem_eraseDups.2 h)]

theorem numberOf_of_new {before : List α} {key : α} (h : key ∉ before) (after : List α) :
    numberOf (before ++ key :: after) key = ⟨before.eraseDups.length⟩ := by
  have hfirst : ((key :: after).removeAll before).eraseDups.idxOf key = 0 := by
    simp [List.removeAll, h, List.eraseDups_cons]
  rw [numberOf, List.eraseDups_append, List.idxOf_append_of_notMem (by simpa using h), hfirst,
    Nat.add_zero]

theorem numberOf_inj {keys : List α} {key other : α} (h : key ∈ keys) :
    numberOf keys key = numberOf keys other ↔ key = other := by
  rw [numberOf, numberOf, ProgramId.mk.injEq, List.idxOf_inj (List.mem_eraseDups.2 h)]

theorem numberOf_map {f : α → β} (hf : Function.Injective f) (keys : List α) (key : α) :
    numberOf (keys.map f) (f key) = numberOf keys key := by
  rw [numberOf, numberOf, eraseDups_map hf, idxOf_map hf]

/-- **The numbers of keys are those of their first appearances.** -/
theorem numberedByAppearance_map (keys : List α) :
    NumberedByAppearance keys (keys.map (numberOf keys)) where
  length := List.length_map ..
  new i key hkey hnew := by
    obtain ⟨hlt, rfl⟩ := List.getElem?_eq_some_iff.1 hkey
    have hsplit : keys = keys.take i ++ keys[i] :: keys.drop (i + 1) := by
      rw [List.getElem_cons_drop, List.take_append_drop]
    have hnumber := numberOf_of_new hnew (keys.drop (i + 1))
    rw [← hsplit] at hnumber
    rw [List.getElem?_map, hkey, Option.map_some, hnumber]
  again i key hkey _ := by
    have hmem := List.mem_of_getElem? hkey
    have hfirst : keys[keys.idxOf key]? = some key :=
      List.getElem?_eq_some_iff.2 ⟨List.idxOf_lt_length_of_mem hmem, List.getElem_idxOf _⟩
    rw [List.getElem?_map, List.getElem?_map, hkey, hfirst]

end

end Shaderwright
