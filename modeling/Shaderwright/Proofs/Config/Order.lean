import Mathlib.Data.String.Basic
import Shaderwright.Config.File
import Shaderwright.Proofs.Results

/-!
# The order of programs

A configuration keeps its programs in the order of their names, no name twice, whatever the
order in which a file gives them (`sorted_load`). Names are compared character by character,
which comes to the same as comparing the bytes of their UTF-8 texts (`Text.bytes_lt_iff`).
-/

namespace Shaderwright

/-! ## Bytes -/

namespace Text

/-- The UTF-8 bytes of a text. -/
def bytes (s : String) : List UInt8 := s.toUTF8.data.toList

theorem bytes_eq_flatMap (s : String) : bytes s = s.toList.flatMap String.utf8EncodeChar := by
  rw [bytes, String.toUTF8, ← String.utf8Encode_toList, List.utf8Encode]
  simp

/-- The bytes of a character, by its size. -/
theorem encode_cases (c : Char) :
    (c.val.toNat ≤ 127 ∧ String.utf8EncodeChar c = [UInt8.ofNat c.val.toNat]) ∨
    (127 < c.val.toNat ∧ c.val.toNat ≤ 2047 ∧ String.utf8EncodeChar c
      = [UInt8.ofNat (c.val.toNat / 64 + 192), UInt8.ofNat (c.val.toNat % 64 + 128)]) ∨
    (2047 < c.val.toNat ∧ c.val.toNat ≤ 65535 ∧ String.utf8EncodeChar c
      = [UInt8.ofNat (c.val.toNat / 4096 + 224), UInt8.ofNat (c.val.toNat / 64 % 64 + 128),
          UInt8.ofNat (c.val.toNat % 64 + 128)]) ∨
    (65535 < c.val.toNat ∧ c.val.toNat < 1114112 ∧ String.utf8EncodeChar c
      = [UInt8.ofNat (c.val.toNat / 262144 + 240), UInt8.ofNat (c.val.toNat / 4096 % 64 + 128),
          UInt8.ofNat (c.val.toNat / 64 % 64 + 128), UInt8.ofNat (c.val.toNat % 64 + 128)]) := by
  have hvalid : c.val.toNat < 1114112 := by
    rcases c.valid with h | h <;> omega
  rw [String.utf8EncodeChar]
  generalize c.val.toNat = n at hvalid
  split
  · next h => exact .inl ⟨h, rfl⟩
  · split
    · next h =>
        rw [Nat.mod_eq_of_lt (by omega : n / 64 < 32)]
        exact .inr (.inl ⟨by omega, h, rfl⟩)
    · split
      · next h =>
          rw [Nat.mod_eq_of_lt (by omega : n / 4096 < 16)]
          exact .inr (.inr (.inl ⟨by omega, h, rfl⟩))
      · rw [Nat.mod_eq_of_lt (by omega : n / 262144 < 8)]
        exact .inr (.inr (.inr ⟨by omega, hvalid, rfl⟩))

theorem ofNat_lt_ofNat {m n : Nat} (hm : m < 256) (hn : n < 256) :
    UInt8.ofNat m < UInt8.ofNat n ↔ m < n := by
  rw [UInt8.lt_iff_toNat_lt, UInt8.toNat_ofNat_of_lt' hm, UInt8.toNat_ofNat_of_lt' hn]

theorem ofNat_eq_ofNat {m n : Nat} (hm : m < 256) (hn : n < 256) :
    UInt8.ofNat m = UInt8.ofNat n ↔ m = n := by
  rw [← UInt8.toNat_inj, UInt8.toNat_ofNat_of_lt' hm, UInt8.toNat_ofNat_of_lt' hn]

/-- Numbers are compared by their digits to the base 64, the highest first. -/
theorem digits_lt {m n : Nat} (h : m < n) :
    m / 262144 < n / 262144 ∨ m / 262144 = n / 262144 ∧
      (m / 4096 % 64 < n / 4096 % 64 ∨ m / 4096 % 64 = n / 4096 % 64 ∧
        (m / 64 % 64 < n / 64 % 64 ∨ m / 64 % 64 = n / 64 % 64 ∧ m % 64 < n % 64)) := by
  have hdigit : ∀ {m n : Nat}, m < n → m / 64 < n / 64 ∨ m / 64 = n / 64 ∧ m % 64 < n % 64 := by
    omega
  have hdiv : ∀ n : Nat, n / 64 / 64 = n / 4096 ∧ n / 4096 / 64 = n / 262144 := fun n =>
    ⟨Nat.div_div_eq_div_mul .., Nat.div_div_eq_div_mul ..⟩
  obtain ⟨hm, hm'⟩ := hdiv m
  obtain ⟨hn, hn'⟩ := hdiv n
  rcases hdigit h with h | ⟨heq, h⟩
  · have h2 := hdigit h
    rw [hm, hn] at h2
    rcases h2 with h2 | ⟨heq, h2⟩
    · have h3 := hdigit h2
      rw [hm', hn'] at h3
      omega
    · omega
  · omega

/-- The bytes of a smaller character differ from those of a larger one before either end,
and are smaller there. -/
theorem encode_lt {c d : Char} (h : c < d) (u v : List UInt8) :
    String.utf8EncodeChar c ++ u < String.utf8EncodeChar d ++ v := by
  have hlt : c.val.toNat < d.val.toNat := h
  have hdigits := digits_lt hlt
  -- The first byte tells how many there are; with as many, the digits decide.
  rcases encode_cases c with ⟨hc, heq⟩ | ⟨hc, hc', heq⟩ | ⟨hc, hc', heq⟩ | ⟨hc, hc', heq⟩ <;>
    rcases encode_cases d with ⟨hd, heq'⟩ | ⟨hd, hd', heq'⟩ | ⟨hd, hd', heq'⟩ | ⟨hd, hd', heq'⟩
  all_goals first
    | omega
    | rw [heq, heq']
      simp (disch := omega) only [List.cons_append, List.nil_append, List.cons_lt_cons_iff,
        ofNat_lt_ofNat, ofNat_eq_ofNat]
      omega

theorem encodeAll_lt {cs ds : List Char} (h : cs < ds) :
    cs.flatMap String.utf8EncodeChar < ds.flatMap String.utf8EncodeChar := by
  induction h with
  | @nil d ds =>
      obtain ⟨b, bs, hbytes⟩ := List.exists_cons_of_ne_nil (String.utf8EncodeChar_ne_nil (c := d))
      rw [List.flatMap_cons, hbytes]
      exact List.Lex.nil
  | @rel c cs d ds hcd => exact encode_lt hcd _ _
  | @cons c cs ds _ ih => exact List.append_left_lt ih

/-- **Texts are ordered as their bytes.** -/
theorem bytes_lt_iff {s t : String} : bytes s < bytes t ↔ s < t := by
  have hlt : ∀ {s t : String}, s < t → bytes s < bytes t := fun {s t} h => by
    rw [bytes_eq_flatMap, bytes_eq_flatMap]
    exact encodeAll_lt (String.lt_iff.1 h)
  constructor
  · intro h
    rcases lt_trichotomy s t with hst | rfl | hts
    · exact hst
    · exact absurd h (List.lt_irrefl _)
    · exact absurd (hlt hts) (List.lt_asymm h)
  · exact hlt

end Text

namespace Config

/-! ## Programs in order -/

/-- The names of the entries go up. -/
def Sorted {α : Type} (entries : List (String × α)) : Prop :=
  (entries.map Prod.fst).Pairwise (· < ·)

theorem sorted_nil {α : Type} : Sorted ([] : List (String × α)) := List.Pairwise.nil

theorem mem_map_fst_putByName {α : Type} {name other : String} {a : α}
    {entries : List (String × α)} (h : other ∈ (putByName name a entries).map Prod.fst) :
    other = name ∨ other ∈ entries.map Prod.fst := by
  induction entries with
  | nil => exact .inl (List.mem_singleton.1 h)
  | cons entry rest ih =>
      obtain ⟨first, b⟩ := entry
      rw [putByName] at h
      split_ifs at h
      · simpa using h
      · simp only [List.map_cons, List.mem_cons] at h ⊢
        exact h.imp_right .inr
      · simp only [List.map_cons, List.mem_cons] at h ⊢
        rcases h with h | h
        · exact .inr (.inl h)
        · exact (ih h).imp_right .inr

theorem Sorted.putByName {α : Type} {entries : List (String × α)} (h : Sorted entries)
    (name : String) (a : α) : Sorted (putByName name a entries) := by
  induction entries with
  | nil => exact List.pairwise_singleton ..
  | cons entry rest ih =>
      obtain ⟨first, b⟩ := entry
      obtain ⟨hfirst, hrest⟩ := List.pairwise_cons.1 h
      rw [Config.putByName]
      split_ifs with hlt heq
      · refine List.pairwise_cons.2 ⟨fun other hother => ?_, h⟩
        rcases List.mem_cons.1 hother with rfl | hother
        · exact hlt
        · exact hlt.trans (hfirst other hother)
      · subst heq
        exact List.pairwise_cons.2 ⟨hfirst, hrest⟩
      · refine List.pairwise_cons.2 ⟨fun other hother => ?_, ih hrest⟩
        rcases mem_map_fst_putByName hother with rfl | hother
        · exact lt_of_le_of_ne (not_lt.1 hlt) (Ne.symm heq)
        · exact hfirst other hother

/-! ## Reading a configuration -/

theorem sorted_programsOfToml {v : Toml.Value} {ps : List (String × StageFiles)}
    (h : programsOfToml v = .ok ps) : Sorted ps := by
  rw [programsOfToml] at h
  cases hentries : v.entries? with
  | none =>
      rw [hentries] at h
      exact nomatch h
  | some entries =>
      rw [hentries] at h
      refine foldlM_keeps ?_ sorted_nil h
      rintro ps ⟨name, v⟩ ps' hps hread
      cases hfiles : StageFiles.ofToml v with
      | error e =>
          simp only [hfiles] at hread
          exact nomatch hread
      | ok files =>
          simp only [hfiles] at hread
          obtain rfl := Except.ok.inj hread
          exact hps.putByName name files

/-- Every field but one leaves the programs as they are. -/
theorem Draft.sorted_read {d d' : Draft} {key : String} {v : Toml.Value}
    (hd : Sorted d.programs) (h : d.read key v = .ok d') : Sorted d'.programs := by
  unfold Draft.read at h
  split at h
  case h_4 =>
    obtain ⟨ps, hps, heq⟩ := bind_eq_ok.1 h
    obtain rfl := Except.ok.inj heq
    exact sorted_programsOfToml hps
  case h_5 =>
    obtain rfl := Except.ok.inj h
    exact hd
  all_goals
    obtain ⟨field, -, heq⟩ := bind_eq_ok.1 h
    obtain rfl := Except.ok.inj heq
    exact hd

/-- A configuration is what its entries, read one after the other, leave. -/
theorem exists_draft {entries : List (String × Toml.Value)} {c : Config}
    (h : ofToml entries = .ok c) :
    ∃ d : Draft, entries.foldlM (fun (d : Draft) (key, v) => d.read key v) {} = .ok d ∧
      c.programs = d.programs ∧ c.glslVersion = d.glslVersion := by
  obtain ⟨d, hread, hfinish⟩ := bind_eq_ok.1 h
  refine ⟨d, hread, ?_⟩
  unfold Draft.finish at hfinish
  cases hversion : d.version with
  | none =>
      rw [hversion] at hfinish
      cases hfinish
  | some version =>
      rw [hversion] at hfinish
      obtain rfl := Except.ok.inj hfinish
      exact ⟨rfl, rfl⟩

theorem sorted_ofToml {entries : List (String × Toml.Value)} {c : Config}
    (h : ofToml entries = .ok c) : Sorted c.programs := by
  obtain ⟨d, hread, heq, -⟩ := exists_draft h
  rw [heq]
  exact foldlM_keeps (fun _ _ _ => Draft.sorted_read) sorted_nil hread

theorem sorted_parse {text : String} {c : Config} (h : parse text = .ok c) :
    Sorted c.programs := by
  rw [parse] at h
  cases hentries : Toml.parse? text with
  | none =>
      rw [hentries] at h
      exact nomatch h
  | some entries =>
      simp only [hentries] at h
      cases hread : ofToml entries with
      | error cause =>
          rw [hread] at h
          exact nomatch h
      | ok d =>
          simp only [hread] at h
          cases hfault : d.fault? with
          | some fault =>
              rw [hfault] at h
              exact nomatch h
          | none =>
              rw [hfault] at h
              obtain rfl := Except.ok.inj h
              exact sorted_ofToml hread

theorem programs_resolve (path : String) (c : Config) : (resolve path c).programs = c.programs := by
  rw [resolve]
  split
  · rfl
  · cases Path.parent? path <;> rfl

/-- **Programs are kept in the order of their names.** -/
theorem sorted_load {read : Reader} {path : String} {c : Config} (h : load read path = .ok c) :
    Sorted c.programs := by
  rw [load] at h
  cases hfile : read path with
  | error cause =>
      rw [hfile] at h
      exact nomatch h
  | ok text =>
      simp only [hfile] at h
      cases hparse : parse text with
      | error cause =>
          rw [hparse] at h
          exact nomatch h
      | ok d =>
          rw [hparse] at h
          obtain rfl := Except.ok.inj h
          rw [programs_resolve]
          exact sorted_parse hparse

end Config

end Shaderwright
