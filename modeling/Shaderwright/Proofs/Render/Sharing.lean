import Shaderwright.Proofs.Render.Index
import Shaderwright.Proofs.Text.Separators

/-!
# When programs of stage files are shared

The key of a program of stage files is a text: its two paths and the names of its
attributes, with bars between the three and commas between the names. Nothing keeps bars
out of a path or commas out of a name. What a key tells apart are therefore the pieces
between its bars, and two programs that spell the same pieces are one to the cache,
whatever their paths and attributes are.

Of programs whose parts hold no separator the key tells all: they are shared if and only if
they have the same paths and the same attributes in the same order.
-/

namespace Shaderwright

/-! ## Keys -/

namespace FileProgram

/-- What a key tells of a program: the pieces between bars of its paths and of its joined
attributes, in a row. -/
def keyPieces (p : FileProgram) : List (List Char) :=
  Text.cut '|' p.vertexPath ++ Text.cut '|' p.fragmentPath ++
    Text.cut '|' (Text.join "," p.attributes)

/-- No part of the program holds the separator that ends it in the key. -/
structure Separable (p : FileProgram) : Prop where
  vertex : '|' ∉ p.vertexPath.toList
  fragment : '|' ∉ p.fragmentPath.toList
  attributes : ∀ name ∈ p.attributes, ',' ∉ name.toList
  /-- One blank name is joined to the same text as no name. -/
  named : p.attributes ≠ [""]

theorem cut_cacheKey (p : FileProgram) : Text.cut '|' p.cacheKey = p.keyPieces := by
  rw [cacheKey, Text.cut_append (by decide), Text.cut_append (by decide), keyPieces]

variable {a b : FileProgram}

theorem cacheKey_eq_iff_keyPieces : a.cacheKey = b.cacheKey ↔ a.keyPieces = b.keyPieces := by
  rw [← cut_cacheKey, ← cut_cacheKey, Text.cut_inj]

/-- Of separable programs, the key tells every part. -/
theorem Separable.cacheKey_eq_iff (ha : a.Separable) (hb : b.Separable) :
    a.cacheKey = b.cacheKey ↔
      a.vertexPath = b.vertexPath ∧ a.fragmentPath = b.fragmentPath ∧
        a.attributes = b.attributes := by
  have hmark : ",".toList = [','] := rfl
  have hcomma := Text.join_inj hmark ha.attributes hb.attributes ha.named hb.named
  rw [cacheKey_eq_iff_keyPieces, keyPieces, keyPieces, Text.cut_of_not_mem ha.vertex,
    Text.cut_of_not_mem hb.vertex, Text.cut_of_not_mem ha.fragment,
    Text.cut_of_not_mem hb.fragment]
  simp only [List.cons_append, List.nil_append, List.cons.injEq, String.toList_inj, Text.cut_inj,
    hcomma]

end FileProgram

/-! ## Shared programs -/

namespace Context

variable {δ : Type} [Device δ]

/-- Two answers of one run are one program exactly if they were asked for under one key. -/
theorem Answered.eq_iff {device : δ} {version : Option Version} {requests : List (Request δ)}
    {key other : String} {i j : ProgramId}
    (hi : (fresh device version).Answered requests key i)
    (hj : (fresh device version).Answered requests other j) : i = j ↔ key = other := by
  have hindexed := keeps_indexed.serveAll (indexed_fresh device version) requests
  have hkey := (find?_serveAll device version requests key i).2 hi
  have hother := (find?_serveAll device version requests other j).2 hj
  constructor
  · rintro rfl
    exact hindexed.key_unique hkey hother
  · rintro rfl
    exact Option.some.inj (hkey.symm.trans hother)

theorem fixed_eq_iff_cacheKey (device : δ) (version : Option Version)
    (before between : List (Request δ)) (read read' : Reader) {a b : FileProgram}
    {i j : ProgramId}
    (ha : (((fresh device version).serveAll before).fixed read a).1 = .ok i)
    (hb : (((fresh device version).serveAll (before ++ .fixed read a :: between)).fixed read' b).1
      = .ok j) :
    i = j ↔ a.cacheKey = b.cacheKey := by
  let requests := before ++ .fixed read a :: between ++ [.fixed read' b]
  have hi : (fresh device version).Answered requests a.cacheKey i :=
    ⟨before, .fixed read a, between ++ [.fixed read' b], by simp [requests], rfl,
      toOption_eq_some_iff.2 ha⟩
  have hj : (fresh device version).Answered requests b.cacheKey j :=
    ⟨before ++ .fixed read a :: between, .fixed read' b, [], rfl, rfl,
      toOption_eq_some_iff.2 hb⟩
  exact hi.eq_iff hj

/-- **Shared programs of stage files.** Keys are the same exactly if they have the same pieces,
and, where no part holds a separator, exactly if all parts are the same. On any device and in
any run, two programs are shared exactly if their keys are the same. -/
theorem fixed_shares_iff (a b : FileProgram) :
    (a.cacheKey = b.cacheKey ↔ a.keyPieces = b.keyPieces) ∧
    (a.Separable → b.Separable → (a.cacheKey = b.cacheKey ↔
      a.vertexPath = b.vertexPath ∧ a.fragmentPath = b.fragmentPath ∧
        a.attributes = b.attributes)) ∧
    ∀ (device : δ) (version : Option Version) (before between : List (Request δ))
      (read read' : Reader) (i j : ProgramId),
      (((fresh device version).serveAll before).fixed read a).1 = .ok i →
      (((fresh device version).serveAll (before ++ .fixed read a :: between)).fixed read' b).1
        = .ok j →
      (i = j ↔ a.cacheKey = b.cacheKey) :=
  ⟨FileProgram.cacheKey_eq_iff_keyPieces, FileProgram.Separable.cacheKey_eq_iff,
    fun device version before between read read' _ _ =>
      fixed_eq_iff_cacheKey device version before between read read'⟩

/-- Two programs of the same files with other attributes, and a release between them. -/
theorem fixed_shares_iff_otherAttributes :
    let a : FileProgram := { shaderDir := "./data", vertex := "v", fragment := "f" }
    let b : FileProgram := { a with attributes := ["color", "position"] }
    a.Separable ∧ b.Separable ∧ a.cacheKey ≠ b.cacheKey ∧ a.keyPieces ≠ b.keyPieces ∧
      ((⟨0⟩ : ProgramId) = ⟨1⟩ ↔ a.cacheKey = b.cacheKey) := by
  intro a b
  have ha : a.Separable := ⟨by decide, by decide, by decide, by decide⟩
  have hb : b.Separable := ⟨by decide, by decide, by decide, by decide⟩
  obtain ⟨hpieces, hparts, hshares⟩ := fixed_shares_iff (δ := Headless) a b
  have hne : a.cacheKey ≠ b.cacheKey := fun h => absurd ((hparts ha hb).1 h).2.2 (by decide)
  exact ⟨ha, hb, hne, fun h => hne (hpieces.2 h),
    hshares {} none [] [.releaseStages] (fun _ => .ok "") (fun _ => .ok "") _ _
      (by decide +kernel) (by decide +kernel)⟩

/-- The key does not tell where a part ends that holds a separator. A program whose one
attribute has a comma in its name gets the program of the same files with two attributes, and
files with bars in their names get that of other files. -/
theorem otherParts_share_program :
    let fresh := fresh ({} : Headless) none
    let read : Reader := fun _ => .ok ""
    let a : FileProgram :=
      { shaderDir := "", vertex := "v", fragment := "f", attributes := ["p", "q"] }
    let b : FileProgram := { a with attributes := ["p,q"] }
    let c : FileProgram := { a with vertex := "x", fragment := "y|z" }
    let d : FileProgram := { a with vertex := "x|y", fragment := "z" }
    (a.cacheKey = b.cacheKey ∧ a.attributes ≠ b.attributes ∧
      (fresh.fixed read a).1 = .ok ⟨0⟩ ∧
      ((fresh.serve (.fixed read a)).fixed read b).1 = .ok ⟨0⟩) ∧
    (c.cacheKey = d.cacheKey ∧ c.vertexPath ≠ d.vertexPath ∧ c.fragmentPath ≠ d.fragmentPath ∧
      (fresh.fixed read c).1 = .ok ⟨0⟩ ∧
      ((fresh.serve (.fixed read c)).fixed read d).1 = .ok ⟨0⟩) := by
  decide +kernel

end Context

end Shaderwright
