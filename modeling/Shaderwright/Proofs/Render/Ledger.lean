import Mathlib.Data.List.Nodup
import Shaderwright.Proofs.History
import Shaderwright.Proofs.Render.Run
import Shaderwright.Render.Headless

/-!
# Handles over a run

A device without hardware records every call. Over any run of a context, whatever
fails in it, the record accounts for every handle: what is linked was compiled and
is not deleted yet, what is deleted was compiled and is deleted once, what is used
was linked, and what is written goes to a location of the program in use.

Call by call this is `Explained`. The invariant `Coherent` ties the record to the
counters of the device and to the stage map, the program list, the tables of
uniforms and the active program of the context. Handles are 32 bits wide and wrap
around, so it is kept as long as fewer have been given out than there are.
-/

namespace Shaderwright

namespace Headless

/-! ## Reading the record -/

namespace Call

/-- The handle that a call gives out. -/
def issued? : Call → Option UInt32
  | .compile _ handle => some handle
  | .link program _ _ => some program
  | _ => none

def compiled? : Call → Option UInt32
  | .compile _ handle => some handle
  | _ => none

def linked? : Call → Option UInt32
  | .link program _ _ => some program
  | _ => none

def deleted? : Call → Option UInt32
  | .deleteStage handle => some handle
  | _ => none

def used? : Call → Option UInt32
  | .useProgram program => some program
  | _ => none

def queried? : Call → Option (UInt32 × String)
  | .locate program name => some (program, name)
  | _ => none

end Call

/-- The handles given out, for stages and for programs. -/
def issued (calls : List Call) : List UInt32 := calls.filterMap Call.issued?

def compiled (calls : List Call) : List UInt32 := calls.filterMap Call.compiled?

def linked (calls : List Call) : List UInt32 := calls.filterMap Call.linked?

def deleted (calls : List Call) : List UInt32 := calls.filterMap Call.deleted?

def queried (calls : List Call) : List (UInt32 × String) := calls.filterMap Call.queried?

/-- The program put to use last. -/
def inUse? (calls : List Call) : Option UInt32 := (calls.filterMap Call.used?).getLast?

theorem filterMap_snoc {α : Type} (f : Call → Option α) (calls : List Call) (call : Call) :
    (calls ++ [call]).filterMap f = calls.filterMap f ++ (f call).toList := by
  cases h : f call <;> simp [h]

@[simp] theorem issued_snoc (calls : List Call) (call : Call) :
    issued (calls ++ [call]) = issued calls ++ call.issued?.toList := filterMap_snoc ..

@[simp] theorem compiled_snoc (calls : List Call) (call : Call) :
    compiled (calls ++ [call]) = compiled calls ++ call.compiled?.toList := filterMap_snoc ..

@[simp] theorem linked_snoc (calls : List Call) (call : Call) :
    linked (calls ++ [call]) = linked calls ++ call.linked?.toList := filterMap_snoc ..

@[simp] theorem deleted_snoc (calls : List Call) (call : Call) :
    deleted (calls ++ [call]) = deleted calls ++ call.deleted?.toList := filterMap_snoc ..

@[simp] theorem queried_snoc (calls : List Call) (call : Call) :
    queried (calls ++ [call]) = queried calls ++ call.queried?.toList := filterMap_snoc ..

@[simp] theorem inUse?_snoc (calls : List Call) (call : Call) :
    inUse? (calls ++ [call]) = call.used?.or (inUse? calls) := by
  rw [inUse?, inUse?, filterMap_snoc]
  cases call.used? <;> simp

theorem issued_of_compiled {calls : List Call} {h : UInt32} (hmem : h ∈ compiled calls) :
    h ∈ issued calls := by
  obtain ⟨call, hcall, hh⟩ := List.mem_filterMap.1 hmem
  refine List.mem_filterMap.2 ⟨call, hcall, ?_⟩
  cases call <;> simp_all [Call.compiled?, Call.issued?]

theorem issued_of_linked {calls : List Call} {p : UInt32} (hmem : p ∈ linked calls) :
    p ∈ issued calls := by
  obtain ⟨call, hcall, hp⟩ := List.mem_filterMap.1 hmem
  refine List.mem_filterMap.2 ⟨call, hcall, ?_⟩
  cases call <;> simp_all [Call.linked?, Call.issued?]

/-! ## Explained calls -/

/-- What must have come before a call. The table holds the locations that the device
gave to the uniforms of programs. -/
def Explained (table : List ((UInt32 × String) × UInt32)) (before : List Call) : Call → Prop
  | .compile _ handle => handle ∉ issued before
  | .link program stages _ =>
      program ∉ issued before ∧ ∀ h ∈ stages, h ∈ compiled before ∧ h ∉ deleted before
  | .deleteStage handle => handle ∈ compiled before ∧ handle ∉ deleted before
  | .useProgram program => program ∈ linked before
  | .locate program name => (program, name) ∉ queried before
  | .write location _ =>
      ∃ program name, inUse? before = some program ∧ (program, name) ∈ queried before ∧
        table.lookup (program, name) = some location
  | .bindTexture _ _ _ => True

/-- Every call of a record is explained by those before it. -/
def Valid (table : List ((UInt32 × String) × UInt32)) (calls : List Call) : Prop :=
  ∀ before call after, calls = before ++ call :: after → Explained table before call

theorem valid_nil (table : List ((UInt32 × String) × UInt32)) : Valid table [] := always_nil

theorem Valid.snoc {table : List ((UInt32 × String) × UInt32)} {calls : List Call}
    (hcalls : Valid table calls) {call : Call} (hcall : Explained table calls call) :
    Valid table (calls ++ [call]) := Always.snoc hcalls hcall

/-- A table may grow. -/
theorem Valid.mono {table table' : List ((UInt32 × String) × UInt32)} {calls : List Call}
    (hcalls : Valid table calls)
    (hle : ∀ key location, table.lookup key = some location →
      table'.lookup key = some location) : Valid table' calls := by
  intro before call after h
  have hcall := hcalls before call after h
  cases call with
  | write location value =>
      obtain ⟨program, name, huse, hquery, hlookup⟩ := hcall
      exact ⟨program, name, huse, hquery, hle _ _ hlookup⟩
  | compile | link | deleteStage | useProgram | locate | bindTexture => exact hcall

/-- What is new whenever it is recorded is recorded once. -/
theorem Valid.nodup {table : List ((UInt32 × String) × UInt32)} {calls : List Call}
    (hcalls : Valid table calls) {α : Type} {f : Call → Option α}
    (hf : ∀ before call a, Explained table before call → f call = some a →
      a ∉ before.filterMap f) : (calls.filterMap f).Nodup :=
  (Always.imp hcalls fun before call h a => hf before call a h).nodup_filterMap

section
variable {table : List ((UInt32 × String) × UInt32)} {calls : List Call}

theorem Valid.nodup_compiled (h : Valid table calls) : (compiled calls).Nodup := by
  refine h.nodup fun before call a hcall ha => ?_
  cases call with
  | compile stage handle =>
      obtain rfl : handle = a := by simpa [Call.compiled?] using ha
      exact fun hmem => hcall (issued_of_compiled hmem)
  | link | deleteStage | useProgram | locate | write | bindTexture => simp [Call.compiled?] at ha

theorem Valid.nodup_linked (h : Valid table calls) : (linked calls).Nodup := by
  refine h.nodup fun before call a hcall ha => ?_
  cases call with
  | link program stages attributes =>
      obtain rfl : program = a := by simpa [Call.linked?] using ha
      exact fun hmem => hcall.1 (issued_of_linked hmem)
  | compile | deleteStage | useProgram | locate | write | bindTexture => simp [Call.linked?] at ha

theorem Valid.nodup_deleted (h : Valid table calls) : (deleted calls).Nodup := by
  refine h.nodup fun before call a hcall ha => ?_
  cases call with
  | deleteStage handle =>
      obtain rfl : handle = a := by simpa [Call.deleted?] using ha
      exact hcall.2
  | compile | link | useProgram | locate | write | bindTexture => simp [Call.deleted?] at ha

theorem Valid.nodup_queried (h : Valid table calls) : (queried calls).Nodup := by
  refine h.nodup fun before call a hcall ha => ?_
  cases call with
  | locate program name =>
      obtain rfl : (program, name) = a := by simpa [Call.queried?] using ha
      exact hcall
  | compile | link | deleteStage | useProgram | write | bindTexture => simp [Call.queried?] at ha

/-- What was deleted was compiled. -/
theorem Valid.compiled_of_deleted (hcalls : Valid table calls) {h : UInt32}
    (hmem : h ∈ deleted calls) : h ∈ compiled calls := by
  obtain ⟨call, hcall, hdeleted⟩ := List.mem_filterMap.1 hmem
  obtain ⟨before, after, hsplit⟩ := List.append_of_mem hcall
  have hexplained := hcalls before call after hsplit
  cases call with
  | deleteStage handle =>
      obtain rfl : handle = h := by simpa [Call.deleted?] using hdeleted
      rw [hsplit, compiled, List.filterMap_append]
      exact List.mem_append_left _ hexplained.1
  | compile | link | useProgram | locate | write | bindTexture => simp [Call.deleted?] at hdeleted

end

/-! ## Counters -/

/-- The record has not run out of handles or locations. -/
def Bounded (d : Headless) : Prop :=
  (issued d.calls).length < UInt32.size ∧ d.locations.length ≤ UInt32.size

/-- The first `n` handles. -/
def handles (n : Nat) : List UInt32 := (List.range n).map fun i => UInt32.ofNat (i + 1)

theorem ofNat_injective {i j : Nat} (hi : i < UInt32.size) (hj : j < UInt32.size)
    (h : UInt32.ofNat i = UInt32.ofNat j) : i = j := by
  have := congrArg UInt32.toNat h
  rwa [UInt32.toNat_ofNat_of_lt' hi, UInt32.toNat_ofNat_of_lt' hj] at this

/-- The next handle is new as long as the handles last. -/
theorem next_not_mem_handles {n : Nat} (h : n + 1 < UInt32.size) :
    UInt32.ofNat n + 1 ∉ handles n := by
  intro hmem
  obtain ⟨i, hi, heq⟩ := List.mem_map.1 hmem
  have hlt := List.mem_range.1 hi
  have hsucc : UInt32.ofNat n + 1 = UInt32.ofNat (n + 1) := by
    rw [UInt32.ofNat_add]
    rfl
  have := ofNat_injective (by omega) h (heq.trans hsucc)
  omega

theorem handles_succ (n : Nat) : handles (n + 1) = handles n ++ [UInt32.ofNat n + 1] := by
  simp [handles, List.range_succ, UInt32.ofNat_add]

/-! ## The handles given out -/

/-- The handles in the record are the first ones in order, up to the last one. -/
structure HandlesAgree (calls : List Call) (last : UInt32) : Prop where
  numbered : issued calls = handles (issued calls).length
  last : last = UInt32.ofNat (issued calls).length

section
variable {calls : List Call} {last : UInt32}

theorem HandlesAgree.snoc (h : HandlesAgree calls last) {call : Call}
    (hcall : call.issued? = none) : HandlesAgree (calls ++ [call]) last where
  numbered := by simpa [hcall] using h.numbered
  last := by simpa [hcall] using h.last

theorem HandlesAgree.issue (h : HandlesAgree calls last) {call : Call}
    (hcall : call.issued? = some (last + 1)) : HandlesAgree (calls ++ [call]) (last + 1) where
  numbered := by
    simp only [issued_snoc, hcall, Option.toList_some, List.length_append, List.length_singleton,
      handles_succ]
    rw [← h.numbered, ← h.last]
  last := by simp [hcall, h.last, UInt32.ofNat_add]

theorem HandlesAgree.next_not_mem (h : HandlesAgree calls last)
    (hb : (issued calls).length + 1 < UInt32.size) : last + 1 ∉ issued calls := by
  rw [h.numbered, h.last]
  exact next_not_mem_handles hb

end

/-! ## The stage objects -/

/-- What is held was compiled and not deleted, and has its source. -/
structure StagesAgree (calls : List Call) (sources : List (UInt32 × String))
    (held : List UInt32) : Prop where
  nodup : held.Nodup
  mem_iff : ∀ h, h ∈ held ↔ h ∈ compiled calls ∧ h ∉ deleted calls
  sources : sources.map Prod.fst = held

section
variable {calls : List Call} {sources : List (UInt32 × String)} {held : List UInt32}

theorem StagesAgree.snoc (h : StagesAgree calls sources held) {call : Call}
    (hcompiled : call.compiled? = none) (hdeleted : call.deleted? = none) :
    StagesAgree (calls ++ [call]) sources held where
  nodup := h.nodup
  mem_iff := by simpa [hcompiled, hdeleted] using h.mem_iff
  sources := h.sources

theorem StagesAgree.compile (h : StagesAgree calls sources held) {handle : UInt32}
    (hcompiled : handle ∉ compiled calls) (hdeleted : handle ∉ deleted calls) (stage : Stage)
    (source : String) :
    StagesAgree (calls ++ [.compile stage handle]) (sources ++ [(handle, source)])
      (held ++ [handle]) where
  nodup := by
    have hnew : handle ∉ held := fun hmem => hcompiled ((h.mem_iff handle).1 hmem).1
    exact List.nodup_append_comm.2 (List.nodup_cons.2 ⟨hnew, h.nodup⟩)
  mem_iff := by
    intro x
    have hx := h.mem_iff x
    simp only [compiled_snoc, deleted_snoc, Call.compiled?, Call.deleted?, Option.toList_some,
      Option.toList_none, List.append_nil, List.mem_append, List.mem_singleton]
    grind
  sources := by simp [h.sources]

theorem StagesAgree.delete {handle : UInt32} (h : StagesAgree calls sources (handle :: held)) :
    StagesAgree (calls ++ [.deleteStage handle]) (sources.filter fun (h, _) => h ≠ handle)
      held where
  nodup := (List.nodup_cons.1 h.nodup).2
  mem_iff := by
    intro x
    have hx := h.mem_iff x
    have hnew := (List.nodup_cons.1 h.nodup).1
    simp only [compiled_snoc, deleted_snoc, Call.compiled?, Call.deleted?, Option.toList_some,
      Option.toList_none, List.append_nil, List.mem_append, List.mem_singleton]
    grind
  sources := by
    have hnew := (List.nodup_cons.1 h.nodup).1
    have hfilter : (handle :: held).filter (fun x => decide (x ≠ handle)) = held := by
      rw [List.filter_cons_of_neg (by simp), List.filter_eq_self]
      intro x hx
      have hne : x ≠ handle := fun heq => hnew (heq ▸ hx)
      simpa using hne
    rw [← hfilter, ← h.sources, List.filter_map]
    rfl

end

/-! ## The programs -/

/-- A program as far as the record is concerned: its handle and the answers it
remembers. -/
abbrev Table := UInt32 × List (String × Option UInt32)

/-- The programs are those linked, the active one is the one in use, and every program
remembers what it asked and what it was answered. -/
structure ProgramsAgree (calls : List Call) (locations : List ((UInt32 × String) × UInt32))
    (tables : List Table) (active : Option ProgramId) : Prop where
  linked : tables.map Prod.fst = linked calls
  active : ∀ id, active = some id →
    ∃ t, tables[id.index]? = some t ∧ inUse? calls = some t.1
  asked : ∀ t ∈ tables, ∀ x, (t.1, x) ∈ queried calls ↔ (t.2.lookup x).isSome = true
  answered : ∀ t ∈ tables, ∀ x location, t.2.lookup x = some (some location) →
    locations.lookup (t.1, x) = some location
  queried_linked : ∀ q ∈ queried calls, q.1 ∈ Headless.linked calls

theorem lookup_singleton {α : Type} (x y : String) (a : α) :
    [(x, a)].lookup y = if y = x then some a else none := by
  by_cases h : y = x
  · simp [h]
  · have hne : (y == x) = false := by simpa using h
    simp [List.lookup_cons, hne, h]

/-- Replacing one table leaves those of the other programs. -/
theorem mem_set_cases {tables : List Table} {i : Nat} {t u v : Table}
    (hnodup : (tables.map Prod.fst).Nodup) (ht : tables[i]? = some t)
    (hu : u ∈ tables.set i v) : u = v ∨ u ∈ tables ∧ u.1 ≠ t.1 := by
  obtain ⟨j, hj⟩ := List.mem_iff_getElem?.1 hu
  rw [List.getElem?_set] at hj
  split at hj
  · next hij =>
      split at hj
      · exact .inl (Option.some.inj hj).symm
      · exact nomatch hj
  · next hij =>
      refine .inr ⟨List.mem_of_getElem? hj, fun heq => hij ?_⟩
      have hlt : i < (tables.map Prod.fst).length := by
        simpa using (List.getElem?_eq_some_iff.1 ht).1
      refine (List.getElem?_inj hlt hnodup).1 ?_
      simp [ht, hj, heq]

section
variable {calls : List Call} {locations : List ((UInt32 × String) × UInt32)}
  {tables : List Table} {active : Option ProgramId}

theorem ProgramsAgree.snoc (h : ProgramsAgree calls locations tables active) {call : Call}
    (hlinked : call.linked? = none) (hused : call.used? = none) (hqueried : call.queried? = none) :
    ProgramsAgree (calls ++ [call]) locations tables active where
  linked := by simpa [hlinked] using h.linked
  active := by simpa [hused] using h.active
  asked := by simpa [hqueried] using h.asked
  answered := h.answered
  queried_linked := by simpa [hqueried, hlinked] using h.queried_linked

theorem ProgramsAgree.link (h : ProgramsAgree calls locations tables active) {program : UInt32}
    (hnew : program ∉ Headless.linked calls) (stages : List UInt32) (attributes : List String) :
    ProgramsAgree (calls ++ [.link program stages attributes]) locations
      (tables ++ [(program, [])]) active where
  linked := by simp [Call.linked?, h.linked]
  active := by
    intro id hid
    obtain ⟨t, ht, huse⟩ := h.active id hid
    have hlt := (List.getElem?_eq_some_iff.1 ht).1
    exact ⟨t, by rwa [List.getElem?_append_left hlt], by simpa [Call.used?] using huse⟩
  asked := by
    intro t ht x
    rcases List.mem_append.1 ht with ht | ht
    · simpa [Call.queried?] using h.asked t ht x
    · obtain rfl := List.mem_singleton.1 ht
      -- Only linked programs were asked about, and this one was not linked yet.
      have hnone : (program, x) ∉ queried calls := fun hq => hnew (h.queried_linked _ hq)
      simpa [Call.queried?] using hnone
  answered := by
    intro t ht x location hlookup
    rcases List.mem_append.1 ht with ht | ht
    · exact h.answered t ht x location hlookup
    · obtain rfl := List.mem_singleton.1 ht
      exact absurd hlookup (by simp)
  queried_linked := by
    intro q hq
    have hq' : q ∈ queried calls := by simpa [Call.queried?] using hq
    simp [Call.linked?, h.queried_linked q hq']

theorem ProgramsAgree.mem_linked (h : ProgramsAgree calls locations tables active) {i : Nat}
    {t : Table} (ht : tables[i]? = some t) : t.1 ∈ Headless.linked calls := by
  rw [← h.linked]
  exact List.mem_map_of_mem (List.mem_of_getElem? ht)

theorem ProgramsAgree.use (h : ProgramsAgree calls locations tables active) {id : ProgramId}
    {t : Table} (ht : tables[id.index]? = some t) :
    ProgramsAgree (calls ++ [.useProgram t.1]) locations tables (some id) where
  linked := by simpa [Call.linked?] using h.linked
  active := by
    intro other hother
    obtain rfl := Option.some.inj hother
    exact ⟨t, ht, by simp [Call.used?]⟩
  asked := by simpa [Call.queried?] using h.asked
  answered := h.answered
  queried_linked := by simpa [Call.queried?, Call.linked?] using h.queried_linked

/-- One table takes up the answer to a question that it has not asked before. -/
theorem ProgramsAgree.locate (h : ProgramsAgree calls locations tables active)
    (hnodup : (Headless.linked calls).Nodup) {id : ProgramId} {t : Table}
    (ht : tables[id.index]? = some t) {x : String} {location : Option UInt32}
    {new : List ((UInt32 × String) × UInt32)}
    (hanswer : ∀ l, location = some l → (locations ++ new).lookup (t.1, x) = some l) :
    ProgramsAgree (calls ++ [.locate t.1 x]) (locations ++ new)
      (tables.set id.index (t.1, t.2 ++ [(x, location)])) active where
  linked := by
    -- The table that changes keeps its handle.
    obtain ⟨hlt, hget⟩ := List.getElem?_eq_some_iff.1 ht
    have hset : (tables.set id.index (t.1, t.2 ++ [(x, location)])).map Prod.fst
        = tables.map Prod.fst := by
      rw [List.map_set, ← hget, ← List.getElem_map Prod.fst (h := by simpa using hlt),
        List.set_getElem_self]
    simpa [Call.linked?, hset] using h.linked
  active := by
    intro other hother
    obtain ⟨u, hu, huse⟩ := h.active other hother
    have huse' : inUse? (calls ++ [.locate t.1 x]) = some u.1 := by
      simpa [Call.used?] using huse
    by_cases heq : id.index = other.index
    · obtain rfl : t = u := Option.some.inj (ht.symm.trans (heq ▸ hu))
      have hlt := (List.getElem?_eq_some_iff.1 ht).1
      exact ⟨(t.1, t.2 ++ [(x, location)]), by rw [← heq, List.getElem?_set_self hlt], huse'⟩
    · exact ⟨u, by rwa [List.getElem?_set_ne heq], huse'⟩
  asked := by
    intro u hu y
    simp only [queried_snoc, Call.queried?, Option.toList_some, List.mem_append,
      List.mem_singleton, Prod.mk.injEq]
    -- Programs have handles of their own, so the question is about this table alone.
    rcases mem_set_cases (h.linked ▸ hnodup) ht hu with rfl | ⟨hu, hne⟩
    · have hasked := h.asked t (List.mem_of_getElem? ht) y
      rw [List.lookup_append, Option.isSome_or, hasked, lookup_singleton]
      by_cases hy : y = x <;> simp [hy]
    · simp [h.asked u hu y, hne]
  answered := by
    intro u hu y l hlookup
    rcases mem_set_cases (h.linked ▸ hnodup) ht hu with rfl | ⟨hu, hne⟩
    · rw [List.lookup_append, lookup_singleton] at hlookup
      rcases Option.or_eq_some_iff.1 hlookup with hlookup | ⟨-, hlookup⟩
      · have hknown := h.answered t (List.mem_of_getElem? ht) y l hlookup
        exact (List.prefix_append ..).lookup_eq_some hknown
      · by_cases hy : y = x
        · subst hy
          exact hanswer l (by simpa using hlookup)
        · simp [hy] at hlookup
    · exact (List.prefix_append ..).lookup_eq_some (h.answered u hu y l hlookup)
  queried_linked := by
    intro q hq
    simp only [queried_snoc, linked_snoc, Call.queried?, Call.linked?, Option.toList_some,
      Option.toList_none, List.append_nil, List.mem_append, List.mem_singleton] at hq ⊢
    rcases hq with hq | rfl
    · exact h.queried_linked q hq
    · exact h.mem_linked ht

end

/-! ## The invariant -/

/-- The record explains itself and agrees with the device and with a context that
holds these stage objects and has these programs, one of them active. -/
structure Coherent (d : Headless) (held : List UInt32) (tables : List Table)
    (active : Option ProgramId) : Prop where
  valid : Valid d.locations d.calls
  handles : HandlesAgree d.calls d.lastHandle
  located : d.locations.map Prod.snd = (List.range d.locations.length).map UInt32.ofNat
  stages : StagesAgree d.calls d.sources held
  programs : ProgramsAgree d.calls d.locations tables active

/-- The invariant, as long as the handles last. -/
def Sound (d : Headless) (held : List UInt32) (tables : List Table)
    (active : Option ProgramId) : Prop := Bounded d → Coherent d held tables active

section
variable {d d' : Headless} {held : List UInt32} {tables : List Table}
  {active : Option ProgramId}

theorem compile_eq_ok {stage : Stage} {source : String} {handle : UInt32}
    (h : d.compile stage source = (.ok handle, d')) :
    handle = d.lastHandle + 1 ∧
      d' = { d with lastHandle := handle, sources := d.sources ++ [(handle, source)] }.record
        (.compile stage handle) := by
  rw [Headless.compile] at h
  split at h
  · exact nomatch congrArg Prod.fst h
  · obtain ⟨hhandle, hdevice⟩ := Prod.mk.inj h
    obtain rfl := Except.ok.inj hhandle
    exact ⟨rfl, hdevice.symm⟩

theorem compile_eq_error {stage : Stage} {source log : String}
    (h : d.compile stage source = (.error log, d')) : d' = d := by
  rw [Headless.compile] at h
  split at h
  · exact (Prod.mk.inj h).2.symm
  · exact nomatch congrArg Prod.fst h

theorem Sound.compile (hs : Sound d held tables active) {stage : Stage} {source : String}
    {handle : UInt32} (hc : d.compile stage source = (.ok handle, d')) :
    Sound d' (held ++ [handle]) tables active := by
  obtain ⟨rfl, rfl⟩ := compile_eq_ok hc
  intro hb
  have hlt : (issued d.calls).length + 1 < UInt32.size := by
    simpa [record, Call.issued?] using hb.1
  have h := hs ⟨by omega, hb.2⟩
  have hnew := h.handles.next_not_mem hlt
  have hcompiled : d.lastHandle + 1 ∉ compiled d.calls := fun hc => hnew (issued_of_compiled hc)
  have hdeleted : d.lastHandle + 1 ∉ deleted d.calls := fun hd =>
    hcompiled (h.valid.compiled_of_deleted hd)
  exact {
    valid := h.valid.snoc hnew
    handles := h.handles.issue rfl
    located := h.located
    stages := h.stages.compile hcompiled hdeleted stage source
    programs := h.programs.snoc rfl rfl rfl }

theorem link_eq_ok {stages : List UInt32} {attributes : List String} {program : UInt32}
    (h : d.link stages attributes = (.ok program, d')) :
    program = d.lastHandle + 1 ∧
      d' = { d with lastHandle := program }.record (.link program stages attributes) := by
  rw [Headless.link] at h
  split at h
  · exact nomatch congrArg Prod.fst h
  · obtain ⟨hprogram, hdevice⟩ := Prod.mk.inj h
    obtain rfl := Except.ok.inj hprogram
    exact ⟨rfl, hdevice.symm⟩

theorem link_eq_error {stages : List UInt32} {attributes : List String} {log : String}
    (h : d.link stages attributes = (.error log, d')) : d' = d := by
  rw [Headless.link] at h
  split at h
  · exact (Prod.mk.inj h).2.symm
  · exact nomatch congrArg Prod.fst h

theorem Sound.link (hs : Sound d held tables active) {stages : List UInt32}
    {attributes : List String} {program : UInt32} (hheld : ∀ h ∈ stages, h ∈ held)
    (hl : d.link stages attributes = (.ok program, d')) :
    Sound d' held (tables ++ [(program, [])]) active := by
  obtain ⟨rfl, rfl⟩ := link_eq_ok hl
  intro hb
  have hlt : (issued d.calls).length + 1 < UInt32.size := by
    simpa [record, Call.issued?] using hb.1
  have h := hs ⟨by omega, hb.2⟩
  have hnew := h.handles.next_not_mem hlt
  have hlinked : d.lastHandle + 1 ∉ linked d.calls := fun hl => hnew (issued_of_linked hl)
  exact {
    valid := h.valid.snoc ⟨hnew, fun x hx => (h.stages.mem_iff x).1 (hheld x hx)⟩
    handles := h.handles.issue rfl
    located := h.located
    stages := h.stages.snoc rfl rfl
    programs := h.programs.link hlinked stages attributes }

theorem Sound.deleteStage {h : UInt32} (hs : Sound d (h :: held) tables active) :
    Sound (d.deleteStage h) held tables active := by
  intro hb
  have hc := hs ⟨by simpa [Headless.deleteStage, record, Call.issued?] using hb.1, hb.2⟩
  exact {
    valid := hc.valid.snoc ((hc.stages.mem_iff h).1 (List.mem_cons_self ..))
    handles := hc.handles.snoc rfl
    located := hc.located
    stages := hc.stages.delete
    programs := hc.programs.snoc rfl rfl rfl }

theorem Sound.use (hs : Sound d held tables active) {id : ProgramId} {t : Table}
    (ht : tables[id.index]? = some t) :
    Sound (d.record (.useProgram t.1)) held tables (some id) := by
  intro hb
  have h := hs ⟨by simpa [record, Call.issued?] using hb.1, hb.2⟩
  exact {
    valid := h.valid.snoc (h.programs.mem_linked ht)
    handles := h.handles.snoc rfl
    located := h.located
    stages := h.stages.snoc rfl rfl
    programs := h.programs.use ht }

theorem Sound.bindTexture (hs : Sound d held tables active) (unit : UInt32)
    (target : TextureTarget) (texture : UInt32) :
    Sound (d.record (.bindTexture unit target texture)) held tables active := by
  intro hb
  have h := hs ⟨by simpa [record, Call.issued?] using hb.1, hb.2⟩
  exact {
    valid := h.valid.snoc trivial
    handles := h.handles.snoc rfl
    located := h.located
    stages := h.stages.snoc rfl rfl
    programs := h.programs.snoc rfl rfl rfl }

/-- A location that the active program remembers was resolved for the program in
use. -/
theorem Sound.write (hs : Sound d held tables active) {id : ProgramId} {t : Table} {x : String}
    {location : UInt32} (hid : active = some id) (ht : tables[id.index]? = some t)
    (hx : t.2.lookup x = some (some location)) (value : UniformValue) :
    Sound (d.record (.write location value)) held tables active := by
  intro hb
  have h := hs ⟨by simpa [record, Call.issued?] using hb.1, hb.2⟩
  have hmem := List.mem_of_getElem? ht
  -- The program in use on the device is the one that is active in the context.
  obtain ⟨u, hu, huse⟩ := h.programs.active id hid
  obtain rfl : t = u := Option.some.inj (ht.symm.trans hu)
  have hasked := (h.programs.asked t hmem x).2 (by simp [hx])
  exact {
    valid := h.valid.snoc ⟨t.1, x, huse, hasked, h.programs.answered t hmem x location hx⟩
    handles := h.handles.snoc rfl
    located := h.located
    stages := h.stages.snoc rfl rfl
    programs := h.programs.snoc rfl rfl rfl }

/-- The table of locations grows at its end, and the answer stands in it. -/
theorem locate_spec {program : UInt32} {x : String} {location : Option UInt32}
    (h : d.locate program x = (location, d')) :
    ∃ new, d' = { d.record (.locate program x) with locations := d.locations ++ new } ∧
      (∀ l, location = some l → (d.locations ++ new).lookup (program, x) = some l) ∧
      (new = [] ∨ ∃ key, new = [(key, UInt32.ofNat d.locations.length)]) := by
  rw [Headless.locate] at h
  dsimp only at h
  split at h
  · obtain ⟨rfl, rfl⟩ := Prod.mk.inj h
    exact ⟨[], by simp [record], fun l hl => (nomatch hl), .inl rfl⟩
  · cases hlookup : d.locations.lookup (program, x) with
    | some known =>
        simp only [record, hlookup] at h
        obtain ⟨rfl, rfl⟩ := Prod.mk.inj h
        refine ⟨[], by simp [record], fun l hl => ?_, .inl rfl⟩
        obtain rfl := Option.some.inj hl
        simpa using hlookup
    | none =>
        simp only [record, hlookup] at h
        obtain ⟨rfl, rfl⟩ := Prod.mk.inj h
        refine ⟨[((program, x), UInt32.ofNat d.locations.length)], rfl, fun l hl => ?_,
          .inr ⟨_, rfl⟩⟩
        obtain rfl := Option.some.inj hl
        simp [List.lookup_append, hlookup]

/-- A location is asked for only if the program does not remember an answer, so the
question is new. -/
theorem Sound.locate (hs : Sound d held tables active) {id : ProgramId} {t : Table} {x : String}
    {location : Option UInt32} (ht : tables[id.index]? = some t) (hx : t.2.lookup x = none)
    (hl : d.locate t.1 x = (location, d')) :
    Sound d' held (tables.set id.index (t.1, t.2 ++ [(x, location)])) active := by
  obtain ⟨new, rfl, hanswer, hnew⟩ := locate_spec hl
  intro hb
  have hlocations : d.locations.length ≤ UInt32.size := by
    have := hb.2
    simp only [List.length_append] at this
    omega
  have h := hs ⟨by simpa [record, Call.issued?] using hb.1, hlocations⟩
  have hold : ∀ key l, d.locations.lookup key = some l →
      (d.locations ++ new).lookup key = some l :=
    fun key l => (List.prefix_append ..).lookup_eq_some
  have hfresh : (t.1, x) ∉ queried d.calls := fun hq => by
    simpa [hx] using (h.programs.asked t (List.mem_of_getElem? ht) x).1 hq
  exact {
    valid := (h.valid.mono hold).snoc hfresh
    handles := h.handles.snoc rfl
    located := by
      rcases hnew with rfl | ⟨key, rfl⟩
      · simpa using h.located
      · simp [h.located, List.range_succ]
    stages := h.stages.snoc rfl rfl
    programs := h.programs.locate h.valid.nodup_linked ht hanswer }

end

/-! ## Contexts on the device -/

/-- What the record knows of a program. -/
def table (p : Program Headless) : Table := (p.handle, p.uniforms)

/-- The stage objects that a context holds. -/
def held (c : Context Headless) : List UInt32 := c.cache.stages.map Prod.snd

/-- The invariant of a context on its device. -/
def SoundContext (c : Context Headless) : Prop :=
  Sound c.device (held c) (c.cache.programs.map table) c.active

theorem table_get? {c : Context Headless} {id : ProgramId} {p : Program Headless}
    (h : c.get? id = some p) : (c.cache.programs.map table)[id.index]? = some (table p) := by
  rw [List.getElem?_map]
  exact congrArg (Option.map table) h

/-- A program may change as long as its handle and its answers stay. -/
theorem map_table_set {c : Context Headless} {id : ProgramId} {p q : Program Headless}
    (h : c.get? id = some p) (hq : table q = table p) :
    (c.cache.programs.set id.index q).map table = c.cache.programs.map table := by
  obtain ⟨hlt, hget⟩ := List.getElem?_eq_some_iff.1 (table_get? h)
  rw [List.map_set, hq, ← hget, List.set_getElem_self]

/-- What the parts of a recipe look up is held. -/
theorem mem_held_of_lookups {c : Context Headless} {parts : List Part} {handles : List UInt32}
    (h : parts.map (fun p => c.cache.stages.lookup p.key) = handles.map some) {x : UInt32}
    (hx : x ∈ handles) : x ∈ held c := by
  have hmem : some x ∈ parts.map fun p => c.cache.stages.lookup p.key := by
    rw [h]
    exact List.mem_map_of_mem hx
  obtain ⟨p, -, hlookup⟩ := List.mem_map.1 hmem
  exact List.mem_map_of_mem (Context.mem_of_lookup hlookup)

theorem keeps_soundContext : Context.Keeps SoundContext where
  journal c events h := h
  compiled c key stage source handle device h hkey hcompile := by
    have hsound := Sound.compile h hcompile
    simpa [SoundContext, held, Context.holdStage] using hsound
  uncompiled c stage source log device h hcompile := by
    obtain rfl := compile_eq_error hcompile
    exact h
  linked c r handles handle device h hfind hparts hlink := by
    have hsound := Sound.link h (fun x hx => mem_held_of_lookups hparts hx) hlink
    simpa [SoundContext, held, Context.keep, Context.record, table] using hsound
  unlinked c handles attributes log device h hlink := by
    obtain rfl := link_eq_error hlink
    exact h
  released c key handle rest h hstages := by
    rw [SoundContext, held, hstages] at h
    exact Sound.deleteStage h
  activated c id program h hget := by
    -- Activation starts the texture units anew, which the record does not see.
    have hsound := Sound.use h (table_get? hget)
    rw [← map_table_set hget (q := { program with textureUnit := 0 }) rfl] at hsound
    exact hsound
  located c id program name location device h hactive hget hlookup hlocate := by
    have hsound := Sound.locate h (table_get? hget) hlookup hlocate
    simpa [SoundContext, held, Context.setProgram, table] using hsound
  written c id program name location value h hactive hget hlookup :=
    Sound.write h hactive (table_get? hget) hlookup value
  bound c id program name location target texture h hactive hget hlookup := by
    have hbound := Sound.bindTexture h program.textureUnit target texture
    have hsound := Sound.write hbound hactive (table_get? hget) hlookup
      (.int program.textureUnit.toInt32)
    rw [← map_table_set hget (q := { program with textureUnit := program.textureUnit + 1 }) rfl]
      at hsound
    exact hsound

theorem soundContext_fresh (hidden : List String) (rejected : Option String)
    (version : Option Version) :
    SoundContext (Context.fresh { hidden, rejected } version) := by
  intro hb
  exact {
    valid := valid_nil _
    handles := ⟨rfl, rfl⟩
    located := rfl
    stages := ⟨List.nodup_nil, by simp [Context.fresh, held, compiled, deleted], rfl⟩
    programs := {
      linked := rfl
      active := fun id h => nomatch h
      asked := fun t ht => by simp [Context.fresh] at ht
      answered := fun t ht => by simp [Context.fresh] at ht
      queried_linked := fun q hq => by simp [Context.fresh, queried] at hq } }

/-! ## What the record accounts for -/

/-- What holds of the record, the device and the context after a run. -/
structure Accounted (c : Context Headless) : Prop where
  /-- No handle is given out twice. -/
  issued_once : (issued c.device.calls).Nodup
  /-- What is linked was compiled before and is not deleted by then. -/
  linked_live : ∀ before program stages attributes after,
    c.device.calls = before ++ .link program stages attributes :: after →
    ∀ h ∈ stages, h ∈ compiled before ∧ h ∉ deleted before
  deleted_once : (deleted c.device.calls).Nodup
  deleted_compiled : ∀ before handle after,
    c.device.calls = before ++ .deleteStage handle :: after → handle ∈ compiled before
  /-- What was compiled and not deleted is what the cache holds. -/
  live_iff : ∀ h, h ∈ compiled c.device.calls ∧ h ∉ deleted c.device.calls ↔ h ∈ held c
  live_count : ((compiled c.device.calls).filter
    fun h => decide (h ∉ deleted c.device.calls)).length = c.cache.stages.length
  live_source : ∀ h ∈ held c, (c.device.source? h).isSome = true
  used_linked : ∀ before program after,
    c.device.calls = before ++ .useProgram program :: after → program ∈ linked before
  /-- What is written goes to a location that was resolved for the program in use, and
  for none of its other uniforms and no other program. -/
  written_resolved : ∀ before location value after,
    c.device.calls = before ++ .write location value :: after →
    ∃ program name, inUse? before = some program ∧ (program, name) ∈ queried before ∧
      ∀ key, c.device.locations.lookup key = some location ↔ key = (program, name)
  queried_once : (queried c.device.calls).Nodup

theorem nodup_map_range {n : Nat} {f : Nat → UInt32}
    (hf : ∀ i j, i < n → j < n → f i = f j → i = j) : ((List.range n).map f).Nodup := by
  rw [List.Nodup, List.pairwise_map]
  refine List.Pairwise.imp_of_mem (fun {i j} hi hj hne heq => hne ?_) List.nodup_range
  exact hf i j (List.mem_range.1 hi) (List.mem_range.1 hj) heq

/-- No two uniforms share a location. -/
theorem eq_of_lookup {table : List ((UInt32 × String) × UInt32)}
    (hnodup : (table.map Prod.snd).Nodup) {key other : UInt32 × String} {location : UInt32}
    (hkey : table.lookup key = some location) (hother : table.lookup other = some location) :
    key = other := by
  obtain ⟨l₁, l₂, h, -⟩ := List.lookup_eq_some_iff.1 hkey
  obtain ⟨l₃, l₄, h', -⟩ := List.lookup_eq_some_iff.1 hother
  have hi : table[l₁.length]? = some (key, location) := by simp [h]
  have hj : table[l₃.length]? = some (other, location) := by simp [h']
  have hlt : l₁.length < (table.map Prod.snd).length := by simp [h]
  have heq : l₁.length = l₃.length := (List.getElem?_inj hlt hnodup).1 (by simp [hi, hj])
  rw [heq, hj] at hi
  exact (congrArg Prod.fst (Option.some.inj hi)).symm

theorem Coherent.accounted {c : Context Headless}
    (h : Coherent c.device (held c) (c.cache.programs.map table) c.active)
    (hb : Bounded c.device) : Accounted c := by
  have hissued : (issued c.device.calls).Nodup := by
    rw [h.handles.numbered]
    refine nodup_map_range fun i j hi hj heq => ?_
    have := hb.1
    have := ofNat_injective (by omega) (by omega) heq
    omega
  have hlocated : (c.device.locations.map Prod.snd).Nodup := by
    rw [h.located]
    have := hb.2
    exact nodup_map_range fun i j hi hj heq => ofNat_injective (by omega) (by omega) heq
  exact {
    issued_once := hissued
    linked_live := fun before program stages attributes after hsplit =>
      (h.valid before _ after hsplit).2
    deleted_once := h.valid.nodup_deleted
    deleted_compiled := fun before handle after hsplit => (h.valid before _ after hsplit).1
    live_iff := fun x => (h.stages.mem_iff x).symm
    live_count := by
      -- Both lists are without repetition, so they are as long as they have members.
      have hperm : ((compiled c.device.calls).filter
          fun x => decide (x ∉ deleted c.device.calls)).Perm (held c) := by
        refine (List.perm_ext_iff_of_nodup (h.valid.nodup_compiled.sublist List.filter_sublist)
          h.stages.nodup).2 fun x => ?_
        simp [h.stages.mem_iff]
      simpa [held] using hperm.length_eq
    live_source := by
      intro x hx
      rw [← h.stages.sources] at hx
      rw [source?, List.lookup_isSome_iff]
      simpa using hx
    used_linked := fun before program after hsplit => h.valid before _ after hsplit
    written_resolved := by
      intro before location value after hsplit
      obtain ⟨program, name, huse, hquery, hlookup⟩ := h.valid before _ after hsplit
      refine ⟨program, name, huse, hquery, fun key => ⟨fun hkey => ?_, fun hkey => hkey ▸ hlookup⟩⟩
      exact eq_of_lookup hlocated hkey hlookup
    queried_once := h.valid.nodup_queried }

/-- **Runs account for every handle.** After any run on a device that records, with any
uniforms hidden and any text rejected, the record is accounted for as long as the
handles and locations have not run out. -/
theorem accounted_serveAll (hidden : List String) (rejected : Option String)
    (version : Option Version) (requests : List (Request Headless))
    (hb : Bounded ((Context.fresh { hidden, rejected } version).serveAll requests).device) :
    Accounted ((Context.fresh { hidden, rejected } version).serveAll requests) :=
  (keeps_soundContext.serveAll (soundContext_fresh hidden rejected version) requests hb).accounted
    hb

/-- Two programs that share a stage, a release between them, and a program of files
that cannot be read. -/
def sharedStageRun : List (Request Headless) :=
  [ .compose [.empty "lit" .vertex, .empty "white" .fragment],
    .activate ⟨0⟩,
    .set "u_light_ambience" (.float 1.0),
    .bindTexture "u_color_sampler" .texture2d (7 : UInt32),
    .compose [.empty "lit" .vertex, .empty "dark" .fragment],
    .releaseStages,
    .fixed (fun _ => .error .missing) { shaderDir := "", vertex := "a", fragment := "b" },
    .compose [.empty "lit" .vertex],
    .activate ⟨2⟩,
    .set "u_light_ambience" (.float 2.0) ]

theorem accounted_sharedStageRun :
    let c := (Context.fresh { hidden := ["u_view_matrix"], rejected := none } none).serveAll
      sharedStageRun
    (c.device.calls.length, c.cache.stages.length, (issued c.device.calls).length) = (19, 1, 7) ∧
      Accounted c :=
  ⟨by decide +kernel, accounted_serveAll _ _ _ _ ⟨by decide +kernel, by decide +kernel⟩⟩

end Headless

end Shaderwright
