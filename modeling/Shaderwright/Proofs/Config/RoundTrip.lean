import Shaderwright.Proofs.Config.Order
import Shaderwright.Proofs.Version.Grammar

/-!
# Configurations written and read back

A configuration that was accepted is written as a table from which the same configuration is
read and accepted again (`accept_toToml`). Three things make this so: programs are kept in the
order of their names, so that reading them in that order puts each behind the others; a version
that was read is read again from its text; and the rules are about the configuration alone, not
about how it was written.
-/

namespace Shaderwright

open Toml (Value)

/-! ## Programs -/

theorem Toml.Value.asTexts_map (names : List String) :
    (Value.array (names.map .string)).asTexts = .ok names := by
  show (names.map Value.string).mapM (asText .string) = .ok names
  induction names with
  | nil => rfl
  | cons name names ih =>
      rw [List.map_cons, List.mapM_cons, ih]
      rfl

namespace StageFiles

theorem Draft.read_vertex (d : Draft) (path : String) :
    d.read "vertex" (.string path) = .ok { d with vertex := some path } := rfl

theorem Draft.read_fragment (d : Draft) (path : String) :
    d.read "fragment" (.string path) = .ok { d with fragment := some path } := rfl

theorem Draft.read_attributes (d : Draft) (names : List String) :
    d.read "attributes" (.array (names.map .string)) = .ok { d with attributes := some names } :=
  bind_eq_ok.2 ⟨names, Toml.Value.asTexts_map names, rfl⟩

/-- The files of a program are read back as they were written, with attributes or without. -/
theorem ofToml_toToml (p : StageFiles) : ofToml p.toToml = .ok p := by
  obtain ⟨vertex, fragment, attributes⟩ := p
  cases attributes with
  | none => rfl
  | some names =>
      have hread : [("vertex", Value.string vertex), ("fragment", .string fragment),
            ("attributes", .array (names.map .string))].foldlM
          (fun (d : Draft) entry => d.read entry.1 entry.2) {}
          = .ok ⟨some vertex, some fragment, some names⟩ := by
        refine Eq.trans (foldlM_cons_of_ok (Draft.read_vertex _ _)) ?_
        refine Eq.trans (foldlM_cons_of_ok (Draft.read_fragment _ _)) ?_
        exact foldlM_cons_of_ok (Draft.read_attributes _ _)
      exact bind_eq_ok.2 ⟨_, hread, rfl⟩

end StageFiles

namespace Config

/-- A name behind all others is put at the end. -/
theorem putByName_of_forall_lt {α : Type} {name : String} {a : α} {entries : List (String × α)}
    (h : ∀ other ∈ entries.map Prod.fst, other < name) :
    putByName name a entries = entries ++ [(name, a)] := by
  induction entries with
  | nil => rfl
  | cons entry rest ih =>
      obtain ⟨first, b⟩ := entry
      obtain ⟨hfirst, hrest⟩ := List.forall_mem_cons.1 h
      rw [putByName, if_neg (not_lt.2 hfirst.le), if_neg hfirst.ne', ih hrest]
      rfl

/-- Of a list in order some programs have been read; those that follow are put behind them. -/
theorem foldlM_programs_of_sorted {done rest : List (String × StageFiles)}
    (h : Sorted (done ++ rest)) :
    (rest.map fun (name, p) => (name, p.toToml)).foldlM
      (fun ps (name, v) => (StageFiles.ofToml v).map fun p => putByName name p ps) done
      = .ok (done ++ rest) := by
  induction rest generalizing done with
  | nil =>
      rw [List.append_nil]
      rfl
  | cons entry rest ih =>
      obtain ⟨name, p⟩ := entry
      have hlast : ∀ other ∈ done.map Prod.fst, other < name := by
        intro other hother
        rw [Sorted, List.map_append] at h
        exact (List.pairwise_append.1 h).2.2 other hother name (by simp)
      have hput : (StageFiles.ofToml p.toToml).map (fun p => putByName name p done)
          = .ok (done ++ [(name, p)]) := by
        rw [StageFiles.ofToml_toToml, ← putByName_of_forall_lt hlast]
        rfl
      rw [List.map_cons, foldlM_cons_of_ok hput, ih (by simpa using h), List.append_assoc]
      rfl

/-- Programs in order are read back in that order. -/
theorem programsOfToml_of_sorted {ps : List (String × StageFiles)} (h : Sorted ps) :
    programsOfToml (.table (ps.map fun (name, p) => (name, p.toToml))) = .ok ps :=
  foldlM_programs_of_sorted (show Sorted ([] ++ ps) from h)

/-! ## Versions -/

/-- The language version, if there is one, is read back from its text. -/
def Versioned (version : Option Version) : Prop :=
  ∀ v, version = some v → Version.parse v.text = .ok v

theorem versionOfText_eq_ok_iff {s : String} {v : Version} :
    Toml.Value.versionOfText s = .ok v ↔ Version.parse s = .ok v := by
  unfold Toml.Value.versionOfText
  cases Version.parse s <;> simp

/-- However a version was given, it is read again from its text. -/
theorem parse_text_of_asVersion {value : Value} {v : Version} (h : value.asVersion = .ok v) :
    Version.parse v.text = .ok v := by
  unfold Toml.Value.asVersion at h
  split at h
  · exact Version.parse_text (versionOfText_eq_ok_iff.1 h)
  · exact Version.parse_text (versionOfText_eq_ok_iff.1 h)
  · exact Version.parse_text (versionOfText_eq_ok_iff.1 h)
  · cases h

theorem Draft.glslVersion_read {d d' : Draft} {v : Value}
    (h : d.read "glsl_version" v = .ok d') :
    ∃ version, v.asVersion = .ok version ∧ d'.glslVersion = some version := by
  have hread : (v.asVersion >>= fun version =>
      Except.ok { d with glslVersion := some version }) = .ok d' := h
  obtain ⟨version, hversion, heq⟩ := bind_eq_ok.1 hread
  obtain rfl := Except.ok.inj heq
  exact ⟨version, hversion, rfl⟩

/-- Every other field leaves the version as it is. -/
theorem Draft.glslVersion_read_of_ne {d d' : Draft} {key : String} {v : Value}
    (hkey : key ≠ "glsl_version") (h : d.read key v = .ok d') :
    d'.glslVersion = d.glslVersion := by
  unfold Draft.read at h
  split at h
  case h_3 => exact absurd rfl hkey
  case h_5 =>
    obtain rfl := Except.ok.inj h
    rfl
  all_goals
    obtain ⟨field, -, heq⟩ := bind_eq_ok.1 h
    obtain rfl := Except.ok.inj heq
    rfl

theorem Draft.versioned_read {d d' : Draft} {key : String} {v : Value}
    (hd : Versioned d.glslVersion) (h : d.read key v = .ok d') : Versioned d'.glslVersion := by
  by_cases hkey : key = "glsl_version"
  · subst hkey
    obtain ⟨version, hversion, heq⟩ := Draft.glslVersion_read h
    rw [heq]
    rintro v ⟨rfl⟩
    exact parse_text_of_asVersion hversion
  · rwa [Draft.glslVersion_read_of_ne hkey h]

theorem versioned_ofToml {entries : List (String × Value)} {c : Config}
    (h : ofToml entries = .ok c) : Versioned c.glslVersion := by
  obtain ⟨d, hread, -, heq⟩ := exists_draft h
  rw [heq]
  exact foldlM_keeps (fun _ _ _ => Draft.versioned_read) (fun _ hv => by cases hv) hread

/-! ## Configurations -/

theorem asCount_toNat (n : UInt32) : (Value.integer n.toNat).asCount = .ok n := by
  have hlt : (n.toNat : Int) < 4294967296 := by
    have := n.toNat_lt
    omega
  simp only [Toml.Value.asCount]
  rw [if_pos ⟨Int.natCast_nonneg _, hlt⟩, Int.toNat_natCast, UInt32.ofNat_toNat]

theorem Draft.read_version (d : Draft) (n : UInt32) :
    d.read "version" (.integer n.toNat) = .ok { d with version := some n } :=
  bind_eq_ok.2 ⟨n, asCount_toNat n, rfl⟩

theorem Draft.read_shaderDir (d : Draft) (dir : String) :
    d.read "shader_dir" (.string dir) = .ok { d with shaderDir := some dir } := rfl

theorem Draft.read_glslVersion (d : Draft) {v : Version} (h : Version.parse v.text = .ok v) :
    d.read "glsl_version" (.string v.text) = .ok { d with glslVersion := some v } := by
  have htext : Toml.Value.versionOfText v.text = .ok v := versionOfText_eq_ok_iff.2 h
  have hread : Value.asVersion (.string v.text) = .ok v := htext
  exact bind_eq_ok.2 ⟨v, hread, rfl⟩

theorem Draft.read_programs (d : Draft) {ps : List (String × StageFiles)} (h : Sorted ps) :
    d.read "programs" (.table (ps.map fun (name, p) => (name, p.toToml)))
      = .ok { d with programs := ps } :=
  bind_eq_ok.2 ⟨ps, programsOfToml_of_sorted h, rfl⟩

/-- A configuration is read back from its table, whether or not it keeps the rules. -/
theorem ofToml_toToml {c : Config} (hprograms : Sorted c.programs)
    (hversioned : Versioned c.glslVersion) : ofToml c.toToml = .ok c := by
  obtain ⟨version, shaderDir, glslVersion, programs⟩ := c
  have hread : (toToml ⟨version, shaderDir, glslVersion, programs⟩).foldlM
      (fun (d : Draft) entry => d.read entry.1 entry.2) {}
      = .ok ⟨some version, some shaderDir, glslVersion, programs⟩ := by
    refine Eq.trans (foldlM_cons_of_ok (Draft.read_version _ _)) ?_
    refine Eq.trans (foldlM_cons_of_ok (Draft.read_shaderDir _ _)) ?_
    -- A version that is not there is not written either.
    cases glslVersion with
    | none => exact foldlM_cons_of_ok (Draft.read_programs _ hprograms)
    | some v =>
        refine Eq.trans (foldlM_cons_of_ok (Draft.read_glslVersion _ (hversioned v rfl))) ?_
        exact foldlM_cons_of_ok (Draft.read_programs _ hprograms)
  exact bind_eq_ok.2 ⟨_, hread, rfl⟩

/-- Reads a configuration from the entries of a table and checks its rules. -/
def accept (entries : List (String × Value)) : Except LoadError Config :=
  match ofToml entries with
  | .error cause => .error (.undecodable cause)
  | .ok c =>
      match c.fault? with
      | some fault => .error (.invalid fault)
      | none => .ok c

theorem accept_eq_ok_iff {entries : List (String × Value)} {c : Config} :
    accept entries = .ok c ↔ ofToml entries = .ok c ∧ c.fault? = none := by
  unfold accept
  cases hread : ofToml entries with
  | error cause => simp
  | ok d =>
      cases hfault : d.fault? with
      | none =>
          simp only [hfault, Except.ok.injEq]
          constructor
          · rintro rfl
            exact ⟨rfl, hfault⟩
          · exact And.left
      | some fault =>
          simp only [hfault, Except.ok.injEq, reduceCtorEq, false_iff, not_and]
          rintro rfl
          simp [hfault]

/-- A text is read by way of the entries of its table. -/
theorem parse_eq_accept (text : String) :
    parse text = match Toml.parse? text with
      | none => .error .malformed
      | some entries => accept entries := rfl

/-- A configuration from a text is one from the entries of some table. -/
theorem exists_accept_of_parse {text : String} {c : Config} (h : parse text = .ok c) :
    ∃ entries, accept entries = .ok c := by
  rw [parse_eq_accept] at h
  cases hentries : Toml.parse? text with
  | none =>
      rw [hentries] at h
      cases h
  | some entries =>
      rw [hentries] at h
      exact ⟨entries, h⟩

/-- **What was accepted is accepted again**, from the table that it is written as, and is the
same configuration in all its parts. So it is with every table, whatever text it may have come
from, and with every text that is read. -/
theorem accept_toToml (c : Config) :
    (∀ entries, accept entries = .ok c → accept c.toToml = .ok c) ∧
      ∀ text, parse text = .ok c → accept c.toToml = .ok c := by
  have htable : ∀ entries, accept entries = .ok c → accept c.toToml = .ok c := by
    intro entries h
    obtain ⟨hread, hfault⟩ := accept_eq_ok_iff.1 h
    exact accept_eq_ok_iff.2
      ⟨ofToml_toToml (sorted_ofToml hread) (versioned_ofToml hread), hfault⟩
  refine ⟨htable, fun text h => ?_⟩
  obtain ⟨entries, hentries⟩ := exists_accept_of_parse h
  exact htable entries hentries

/-- A text that gives the version as a number, the directory not at all and the programs out of
order. -/
def scatteredText : String :=
  "version = 1\nglsl_version = 3.3\n\n[programs.sky]\nfragment = 's.fsh'\nvertex = 's.vsh'\n\n"
    ++ "[programs.bale]\nvertex = 'b.vsh'\nfragment = 'b.fsh'\nattributes = ['position']\n"

/-- The configuration of that text. -/
def scattered : Config where
  version := 1
  glslVersion := some ⟨3, 3⟩
  programs :=
    [("bale", { vertex := "b.vsh", fragment := "b.fsh", attributes := some ["position"] }),
      ("sky", { vertex := "s.vsh", fragment := "s.fsh" })]

theorem accept_toToml_scattered :
    parse scatteredText = .ok scattered ∧ accept scattered.toToml = .ok scattered := by
  have hparse : parse scatteredText = .ok scattered :=
    toOption_eq_some_iff.1 (by decide +kernel)
  exact ⟨hparse, (accept_toToml scattered).2 scatteredText hparse⟩

end Config

end Shaderwright
