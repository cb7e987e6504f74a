import BarkToken.Bytes.Layout

/-!
# Runs of TLV calls

A call of one of the functions that write entries, and what its caller writes
through the slice it gets back.
-/

namespace BarkToken
open Fallible Buffered Bytes

/-- `written` is what the caller puts into the slice, if anything. -/
inductive TlvCall where
  | alloc (v : ExtensionType) (length : ℕ) (overwrite : Bool) (written : Option Bytes)
  | initExtension (v : ExtensionType) (default : Bytes) (overwrite : Bool)
      (written : Option Bytes)
  | initVariableLenExtension (v : ExtensionType) (extension : VariableLenPack) (overwrite : Bool)
  | realloc (v : ExtensionType) (length : ℕ) (written : Option Bytes)
  | reallocVariableLenExtension (v : ExtensionType) (extension : VariableLenPack)

namespace TlvCall

/-- `V::TYPE`. -/
def type : TlvCall → ExtensionType
  | alloc v _ _ _ | initExtension v _ _ _ | initVariableLenExtension v _ _ | realloc v _ _
  | reallocVariableLenExtension v _ => v

/-- A write through the returned reference. -/
def put (s : SliceMut) : Option Bytes → TlvM Unit
  | none => pure ()
  | some w => s.assign w

/-- The call on a TLV area of base `S`. -/
def run (S : BaseState) : TlvCall → TlvM Unit
  | alloc v length overwrite written => do put (← Bytes.alloc S v length overwrite) written
  | initExtension v default overwrite written => do
    put (← Bytes.initExtension S v default overwrite) written
  | initVariableLenExtension v extension overwrite =>
    Bytes.initVariableLenExtension S v extension overwrite
  | realloc v length written => do put (← Bytes.realloc v length) written
  | reallocVariableLenExtension v extension => Bytes.reallocVariableLenExtension v extension

/-- The value the entry is to have, given the one it had. -/
def newValue : TlvCall → Option Bytes → Bytes
  | alloc _ length _ written, old => written.getD (old.getD (List.replicate length 0))
  | initExtension _ default _ written, _ => written.getD default
  | initVariableLenExtension _ extension _, _ => extension.serialized
  | realloc _ length written, old => written.getD (resize (old.getD []) length)
  | reallocVariableLenExtension _ extension, _ => extension.serialized

/-- Successful calls, one after the other. -/
def runAll (S : BaseState) : List TlvCall → TlvM Unit
  | [] => pure ()
  | c :: cs => do
    c.run S
    runAll S cs

theorem runAll_cons_eq_ok {S : BaseState} {c : TlvCall} {cs : List TlvCall} {b t : Bytes} :
    (runAll S (c :: cs)).run b = (.ok (), t) ↔
      ∃ u, (c.run S).run b = (.ok (), u) ∧ (runAll S cs).run u = (.ok (), t) := by
  rw [runAll, run_bind_eq_ok]
  exact ⟨fun ⟨_, u, h, h'⟩ => ⟨u, h, h'⟩, fun ⟨u, h, h'⟩ => ⟨(), u, h, h'⟩⟩

/-! ### One call -/

section Step

variable {S : BaseState} {m : Entries} {b t : Bytes}

theorem put_eq_ok {v : ExtensionType} {x : Bytes} {s : SliceMut} {written : Option Bytes}
    (h : Borrows S m v x s b) (hrun : (put s written).run b = (.ok (), t)) :
    (∀ w ∈ written, w.length = x.length) ∧ Borrows S m v (written.getD x) s t ∧
      t.length = b.length := by
  cases written with
  | none =>
    obtain ⟨_, rfl⟩ := run_pure_eq_ok.mp hrun
    exact ⟨fun _ hw => absurd hw (Option.not_mem_none _), h, rfl⟩
  | some w =>
    obtain ⟨hw, hborrows, hlen⟩ := h.assign_eq_ok hrun
    refine ⟨fun w' hw' => ?_, hborrows, hlen⟩
    obtain rfl := Option.mem_some_iff.mp hw'
    exact hw

/-- A call that returns has replaced the value of its own entry, or appended it. -/
theorem run_eq_ok (h : Layout S m b) {c : TlvCall} (hrun : (c.run S).run b = (.ok (), t)) :
    Layout S (m.put c.type (c.newValue (m.get c.type))) t ∧ t.length = b.length := by
  cases c with
  | alloc v length overwrite written =>
    obtain ⟨s, u, halloc, hput⟩ := run_bind_eq_ok.mp hrun
    obtain ⟨_, _, hlen, _, x, _, hx, hborrows⟩ := h.alloc_eq_ok halloc
    obtain ⟨_, hborrows', hlen'⟩ := put_eq_ok hborrows hput
    simp only [type, newValue, ← hx]
    exact ⟨hborrows'.layout, hlen'.trans hlen⟩
  | initExtension v default overwrite written =>
    obtain ⟨s, u, hinit, hput⟩ := run_bind_eq_ok.mp hrun
    obtain ⟨s', u', halloc, hinit⟩ := run_bind_eq_ok.mp hinit
    obtain ⟨_, u'', hassign, hret⟩ := run_bind_eq_ok.mp hinit
    obtain ⟨rfl, rfl⟩ := run_pure_eq_ok.mp hret
    obtain ⟨_, _, hlen, _, x, _, _, hborrows⟩ := h.alloc_eq_ok halloc
    obtain ⟨_, hborrows', hlen'⟩ := hborrows.assign_eq_ok hassign
    obtain ⟨_, hborrows'', hlen''⟩ := put_eq_ok hborrows' hput
    exact ⟨hborrows''.layout, (hlen''.trans hlen').trans hlen⟩
  | initVariableLenExtension v extension overwrite =>
    obtain ⟨length, hlength, hinit⟩ := reads_bind_eq_ok.mp hrun
    obtain ⟨s, u, halloc, hpack⟩ := run_bind_eq_ok.mp hinit
    obtain ⟨_, _, hlen, _, x, hx, _, hborrows⟩ := h.alloc_eq_ok halloc
    obtain ⟨hborrows', hlen'⟩ := hborrows.pack_eq_ok (hx ▸ hlength) hpack
    exact ⟨hborrows'.layout, hlen'.trans hlen⟩
  | realloc v length written =>
    obtain ⟨s, u, hrealloc, hput⟩ := run_bind_eq_ok.mp hrun
    obtain ⟨hlen, x, hget, hborrows⟩ := h.realloc_eq_ok hrealloc
    obtain ⟨_, hborrows', hlen'⟩ := put_eq_ok hborrows hput
    simp only [type, newValue, hget, Option.getD_some]
    exact ⟨hborrows'.layout, hlen'.trans hlen⟩
  | reallocVariableLenExtension v extension =>
    obtain ⟨length, hlength, hinit⟩ := reads_bind_eq_ok.mp hrun
    obtain ⟨s, u, hrealloc, hpack⟩ := run_bind_eq_ok.mp hinit
    obtain ⟨hlen, x, hget, hborrows⟩ := h.realloc_eq_ok hrealloc
    obtain ⟨hborrows', hlen'⟩ := hborrows.pack_eq_ok (by rw [length_resize]; exact hlength) hpack
    exact ⟨hborrows'.layout, hlen'.trans hlen⟩

theorem runAll_layout (h : Layout S m b) {cs : List TlvCall}
    (hrun : (runAll S cs).run b = (.ok (), t)) : ∃ m', Layout S m' t := by
  induction cs generalizing m b with
  | nil =>
    obtain ⟨_, rfl⟩ := run_pure_eq_ok.mp hrun
    exact ⟨m, h⟩
  | cons c cs ih =>
    obtain ⟨u, hc, hcs⟩ := runAll_cons_eq_ok.mp hrun
    exact ih (run_eq_ok h hc).1 hcs

end Step

/-! ### Initialising calls -/

/-- The calls that may find no entry of their type. -/
def Initialises : TlvCall → Prop
  | alloc _ _ _ _ | initExtension _ _ _ _ | initVariableLenExtension _ _ _ => True
  | realloc _ _ _ | reallocVariableLenExtension _ _ => False

/-- The same call with another `overwrite` flag. -/
def withOverwrite (overwrite : Bool) : TlvCall → TlvCall
  | alloc v length _ written => alloc v length overwrite written
  | initExtension v default _ written => initExtension v default overwrite written
  | initVariableLenExtension v extension _ => initVariableLenExtension v extension overwrite
  | c => c

/-- The value of an entry not there before. -/
def initialValue (c : TlvCall) : Bytes := c.newValue none

/-- What the call needs besides room: values that fill their slices. -/
def Ready : TlvCall → Prop
  | alloc _ length _ written => ∀ w ∈ written, w.length = length
  | initExtension _ default _ written => ∀ w ∈ written, w.length = default.length
  | initVariableLenExtension _ extension _ =>
    extension.getPackedLen = .ok extension.serialized.length ∧
      ∃ out, extension.packIntoSlice (List.replicate extension.serialized.length 0) = .ok out
  | realloc _ _ _ | reallocVariableLenExtension _ _ => False

/-- The condition under which a call appends an entry, apart from the room. -/
def Fits (S : BaseState) (c : TlvCall) : Prop :=
  c.type.accountType = S.accountType ∧ c.initialValue.length < 65536 ∧ c.Ready

@[simp] theorem type_withOverwrite (o : Bool) (c : TlvCall) : (c.withOverwrite o).type = c.type := by
  cases c <;> rfl

@[simp] theorem initialValue_withOverwrite (o : Bool) (c : TlvCall) :
    (c.withOverwrite o).initialValue = c.initialValue := by
  cases c <;> rfl

theorem fits_withOverwrite (S : BaseState) (o : Bool) (c : TlvCall) :
    Fits S (c.withOverwrite o) ↔ Fits S c := by
  cases c <;> exact Iff.rfl

theorem initialises_withOverwrite (o : Bool) (c : TlvCall) :
    (c.withOverwrite o).Initialises ↔ c.Initialises := by
  cases c <;> exact Iff.rfl

section Init

variable {S : BaseState} {m : Entries} {b : Bytes}

theorem put_of_length {v : ExtensionType} {x : Bytes} {s : SliceMut} {w : Option Bytes}
    (h : Borrows S m v x s b) (hw : ∀ y ∈ w, y.length = x.length) :
    ∃ t, (put s w).run b = (.ok (), t) := by
  cases w with
  | none => exact ⟨b, rfl⟩
  | some y =>
    obtain ⟨t, hrun, _⟩ := h.assign_of_length (hw y rfl)
    exact ⟨t, hrun⟩

/-- A call that returns found values that fill their slices. -/
theorem ready_of_run (h : Layout S m b) {c : TlvCall} {t : Bytes} (hinit : c.Initialises)
    (hget : m.get c.type = none) (hrun : (c.run S).run b = (.ok (), t)) : c.Ready := by
  cases c with
  | alloc v length overwrite written =>
    obtain ⟨s, u, halloc, hput⟩ := run_bind_eq_ok.mp hrun
    obtain ⟨_, _, _, _, x, hx, _, hborrows⟩ := h.alloc_eq_ok halloc
    exact hx ▸ (put_eq_ok hborrows hput).1
  | initExtension v default overwrite written =>
    obtain ⟨s, u, hext, hput⟩ := run_bind_eq_ok.mp hrun
    obtain ⟨s', u', halloc, hext⟩ := run_bind_eq_ok.mp hext
    obtain ⟨_, u'', hassign, hret⟩ := run_bind_eq_ok.mp hext
    obtain ⟨rfl, rfl⟩ := run_pure_eq_ok.mp hret
    obtain ⟨_, _, _, _, x, _, _, hborrows⟩ := h.alloc_eq_ok halloc
    obtain ⟨_, hborrows', _⟩ := hborrows.assign_eq_ok hassign
    exact (put_eq_ok hborrows' hput).1
  | initVariableLenExtension v extension overwrite =>
    obtain ⟨length, hlength, hext⟩ := reads_bind_eq_ok.mp hrun
    obtain ⟨s, u, halloc, hpack⟩ := run_bind_eq_ok.mp hext
    obtain ⟨_, _, _, _, x, _, hx, hborrows⟩ := h.alloc_eq_ok halloc
    simp only [SliceMut.pack, reads_bind_eq_ok, Fallible.bind_eq_ok] at hpack
    obtain ⟨out, ⟨dst, hdst, hout⟩, _⟩ := hpack
    have hlen := extension.packedLen_eq _ hlength
    have hdst' := Except.ok.inj (hborrows.slice_eq.symm.trans hdst)
    simp only [type] at hget
    rw [hget, Option.getD_none] at hx
    rw [← hdst', hx, hlen] at hout
    exact ⟨hlen ▸ hlength, out, hout⟩
  | realloc v length written => exact hinit.elim
  | reallocVariableLenExtension v extension => exact hinit.elim

theorem run_absent (h : Layout S m b) {c : TlvCall} {t : Bytes} (hget : m.get c.type = none)
    (hrun : (c.run S).run b = (.ok (), t)) :
    Layout S (m.put c.type c.initialValue) t ∧ t.length = b.length := by
  have hlayout := run_eq_ok h hrun
  rw [hget] at hlayout
  exact hlayout

/-- With no entry of its type, an initialising call returns just when the entry
it appends fits. -/
theorem run_init_iff (h : Layout S m b) {c : TlvCall} (hinit : c.Initialises)
    (hget : m.get c.type = none) :
    (∃ t, (c.run S).run b = (.ok (), t)) ↔
      c.Fits S ∧ (encode m).length + (4 + c.initialValue.length) ≤ b.length := by
  constructor
  · rintro ⟨t, hrun⟩
    have hready := ready_of_run h hinit hget hrun
    obtain ⟨hlayout, hlen⟩ := run_absent h hget hrun
    have hentry : (m.put c.type c.initialValue).get c.type = some c.initialValue :=
      TypedStore.get_put_self m c.type _
    refine ⟨⟨hlayout.accountType_of_get hentry, hlayout.holds.length_lt_of_get hentry, hready⟩, ?_⟩
    have hused := hlayout.used_le
    rw [hlen, length_encode_put, hget, Option.elim] at hused
    exact hused
  · rintro ⟨⟨hv, hlt, hready⟩, hroom⟩
    cases c with
    | alloc v length overwrite written =>
      have hlength : (initialValue (alloc v length overwrite written)).length = length := by
        cases written with
        | none => exact List.length_replicate
        | some w => exact hready w rfl
      rw [hlength] at hlt hroom
      obtain ⟨s, u, halloc, _, hborrows⟩ := h.alloc_absent hv hget hlt overwrite hroom
      obtain ⟨t, hput⟩ := put_of_length (w := written) hborrows
        (fun w hw => (hready w hw).trans List.length_replicate.symm)
      exact ⟨t, run_bind_eq_ok.mpr ⟨s, u, halloc, hput⟩⟩
    | initExtension v default overwrite written =>
      have hlength : (initialValue (initExtension v default overwrite written)).length =
          default.length := by
        cases written with
        | none => rfl
        | some w => exact hready w rfl
      rw [hlength] at hlt hroom
      obtain ⟨s, u, halloc, _, hborrows⟩ := h.alloc_absent hv hget hlt overwrite hroom
      obtain ⟨u', hassign, hborrows', _⟩ := hborrows.assign_of_length (y := default)
        List.length_replicate.symm
      obtain ⟨t, hput⟩ := put_of_length (w := written) hborrows' hready
      refine ⟨t, run_bind_eq_ok.mpr ⟨s, u', ?_, hput⟩⟩
      refine run_bind_eq_ok.mpr ⟨s, u, halloc, run_bind_eq_ok.mpr ⟨(), u', hassign, rfl⟩⟩
    | initVariableLenExtension v extension overwrite =>
      obtain ⟨hlength, out, hout⟩ := hready
      obtain ⟨s, u, halloc, _, hborrows⟩ := h.alloc_absent hv hget hlt overwrite hroom
      have hpacked : extension.getPackedLen =
          .ok (List.replicate extension.serialized.length (0 : UInt8)).length := by
        rw [List.length_replicate]
        exact hlength
      obtain ⟨t, hpack⟩ := hborrows.pack_of_ok hpacked hout
      exact ⟨t, reads_bind_eq_ok.mpr ⟨_, hlength, run_bind_eq_ok.mpr ⟨s, u, halloc, hpack⟩⟩⟩
    | realloc v length written => exact hinit.elim
    | reallocVariableLenExtension v extension => exact hinit.elim

/-- The entries of calls of distinct types, in the order of the calls. -/
def entries (cs : List TlvCall) : Entries := cs.map fun c => ⟨c.type, c.initialValue⟩

theorem tags_entries (cs : List TlvCall) : TypedStore.tags (entries cs) = cs.map type := by
  simp only [TypedStore.tags, entries, List.map_map]
  rfl

/-- Initialising calls of distinct types return just when all their entries
fit, and leave these entries behind the ones there were. -/
theorem runAll_init (h : Layout S m b) {cs : List TlvCall} (hinit : ∀ c ∈ cs, c.Initialises)
    (hdistinct : (m.tags ++ cs.map type).Nodup) :
    ((∃ t, (runAll S cs).run b = (.ok (), t)) ↔
      (∀ c ∈ cs, c.Fits S) ∧ (encode (m ++ entries cs)).length ≤ b.length) ∧
    ∀ t, (runAll S cs).run b = (.ok (), t) →
      Layout S (m ++ entries cs) t ∧ t.length = b.length := by
  induction cs generalizing m b with
  | nil =>
    have hnil : m ++ entries [] = m := List.append_nil m
    rw [hnil]
    refine ⟨⟨fun _ => ⟨fun c hc => absurd hc List.not_mem_nil, h.used_le⟩, fun _ => ⟨b, rfl⟩⟩, ?_⟩
    intro t hrun
    obtain ⟨_, rfl⟩ := run_pure_eq_ok.mp hrun
    exact ⟨h, rfl⟩
  | cons c cs ih =>
    have hc : c.Initialises := hinit c List.mem_cons_self
    have htype : c.type ∉ m.tags := by
      intro hmem
      exact (List.nodup_append.mp hdistinct).2.2 _ hmem _ List.mem_cons_self rfl
    have hget : m.get c.type = none := TypedStore.get_eq_none_iff.mpr htype
    have hput : m.put c.type c.initialValue = m ++ [⟨c.type, c.initialValue⟩] :=
      TypedStore.put_of_not_mem htype _
    have hentries : m ++ entries (c :: cs) = m.put c.type c.initialValue ++ entries cs := by
      rw [hput, List.append_assoc]
      rfl
    have htags : ((m.put c.type c.initialValue).tags ++ cs.map type).Nodup := by
      rw [TypedStore.tags_put_of_not_mem _ htype, List.append_assoc]
      exact hdistinct
    have hstep := run_init_iff h hc hget
    have hrest := fun u (hu : (c.run S).run b = (.ok (), u)) =>
      ih (run_absent h hget hu).1 (fun c hc => hinit c (List.mem_cons_of_mem _ hc)) htags
    rw [hentries]
    refine ⟨⟨?_, ?_⟩, ?_⟩
    · rintro ⟨t, hrun⟩
      obtain ⟨u, hu, hcs⟩ := runAll_cons_eq_ok.mp hrun
      obtain ⟨hfits, hroom⟩ := (hrest u hu).1.mp ⟨t, hcs⟩
      refine ⟨?_, (run_eq_ok h hu).2 ▸ hroom⟩
      intro d hd
      rcases List.mem_cons.mp hd with rfl | hd
      · exact (hstep.mp ⟨u, hu⟩).1
      · exact hfits d hd
    · rintro ⟨hfits, hroom⟩
      have hfirst : (encode m).length + (4 + c.initialValue.length) ≤ b.length := by
        rw [encode_append, List.length_append, length_encode_put, hget, Option.elim] at hroom
        omega
      obtain ⟨u, hu⟩ := hstep.mpr ⟨hfits c List.mem_cons_self, hfirst⟩
      have hlen := (run_eq_ok h hu).2
      obtain ⟨t, hcs⟩ := (hrest u hu).1.mpr
        ⟨fun d hd => hfits d (List.mem_cons_of_mem _ hd), hlen.symm ▸ hroom⟩
      exact ⟨t, runAll_cons_eq_ok.mpr ⟨u, hu, hcs⟩⟩
    · intro t hrun
      obtain ⟨u, hu, hcs⟩ := runAll_cons_eq_ok.mp hrun
      obtain ⟨hlayout, hlen⟩ := (hrest u hu).2 t hcs
      exact ⟨hlayout, hlen.trans (run_eq_ok h hu).2⟩

end Init
end TlvCall
end BarkToken
