import BarkToken.Bytes.TlvRun

/-!
# The TLV area is a finite map (extension/mod.rs:142-237, 597-734)

From a buffer of zeroes, through any successful calls.
-/

namespace BarkToken
open Fallible Buffered Bytes TlvCall

section Orders

variable {S : BaseState} {n : ℕ} {cs ds : List TlvCall}

theorem entries_withOverwrite (o : Bool) (cs : List TlvCall) :
    entries (cs.map (withOverwrite o)) = entries cs := by
  simp only [entries, List.map_map]
  refine List.map_congr_left fun c _ => ?_
  simp only [Function.comp_apply, type_withOverwrite, initialValue_withOverwrite]

/-- The same initialisations up to order and flags have the same entries up to order. -/
theorem entries_perm (h : (ds.map (withOverwrite false)).Perm (cs.map (withOverwrite false))) :
    (entries ds).Perm (entries cs) := by
  rw [← entries_withOverwrite false ds, ← entries_withOverwrite false cs]
  exact h.map _

theorem forall_of_perm {P : TlvCall → Prop}
    (hP : ∀ c, P (c.withOverwrite false) ↔ P c)
    (h : (ds.map (withOverwrite false)).Perm (cs.map (withOverwrite false)))
    (hcs : ∀ c ∈ cs, P c) : ∀ d ∈ ds, P d := by
  intro d hd
  have hmem := h.mem_iff.mp (List.mem_map_of_mem (f := withOverwrite false) hd)
  obtain ⟨c, hc, hcd⟩ := List.mem_map.mp hmem
  rw [← hP d, ← hcd, hP c]
  exact hcs c hc

theorem length_encode_perm {m m' : Entries} (h : m.Perm m') :
    (encode m).length = (encode m').length := by
  rw [length_encode, length_encode]
  exact (h.map _).sum_nat

/-- Initialisations of distinct types, in any order and with any flags, return
alike and leave an area of the same size on which every lookup is the same. -/
theorem runAll_init_perm {b : Bytes} (hinit : ∀ c ∈ cs, c.Initialises)
    (hdistinct : (cs.map type).Nodup)
    (hperm : (ds.map (withOverwrite false)).Perm (cs.map (withOverwrite false)))
    (hrun : (runAll S cs).run (List.replicate n 0) = (.ok (), b)) :
    ∃ b', (runAll S ds).run (List.replicate n 0) = (.ok (), b') ∧
      (∀ v, getExtensionBytes S v b' = getExtensionBytes S v b) ∧
      (getTlvDataInfo b').map TlvDataInfo.usedLen = (getTlvDataInfo b).map TlvDataInfo.usedLen := by
  have hzeroes := Layout.zeroes S n
  have hentries := entries_perm hperm
  have hused := length_encode_perm hentries
  have htags : (ds.map type).Perm (cs.map type) := by
    rw [← tags_entries, ← tags_entries]
    exact hentries.map _
  obtain ⟨hiff, hlayout⟩ := runAll_init hzeroes hinit hdistinct
  obtain ⟨hiff', hlayout'⟩ := runAll_init hzeroes
    (forall_of_perm (initialises_withOverwrite false) hperm hinit) (htags.nodup_iff.mpr hdistinct)
  obtain ⟨hfits, hroom⟩ := hiff.mp ⟨b, hrun⟩
  rw [List.nil_append] at hlayout hlayout' hroom hiff'
  obtain ⟨b', hrun'⟩ := hiff'.mpr
    ⟨forall_of_perm (fits_withOverwrite S false) hperm hfits, hused ▸ hroom⟩
  obtain ⟨hb, hlen⟩ := hlayout b hrun
  obtain ⟨hb', hlen'⟩ := hlayout' b' hrun'
  refine ⟨b', hrun', fun v => ?_, ?_⟩
  · have hget := TypedStore.get_perm hentries hb'.nodup v
    rw [hb'.holds.getExtensionBytes_eq hb'.base, hb.holds.getExtensionBytes_eq hb.base, hget,
      hused, hlen, hlen']
  · rw [hb'.holds.getTlvDataInfo_eq, hb.holds.getTlvDataInfo_eq]
    simp only [Except.map, hused]

end Orders

/-- Whatever calls filled a buffer of zeroes: its entries have distinct types of
the base's account type and nothing but zeroes behind them; the next call gives
its type the new value, changes the lookup of no other type and drops none; no
`realloc` indexes out of range; and the order of initialisations does not matter. -/
theorem tlv_area_is_map (S : BaseState) (n : ℕ) (calls : List TlvCall) (tlvData : Bytes)
    (hrun : (runAll S calls).run (List.replicate n 0) = (.ok (), tlvData)) :
    (∃ info, getTlvDataInfo tlvData = .ok info ∧ info.extensionTypes.Nodup ∧
      (∀ t ∈ info.extensionTypes, t.accountType = S.accountType) ∧
      (∀ i, info.usedLen ≤ i → i < tlvData.length → tlvData[i]? = some 0) ∧
      ∀ (c : TlvCall) (after : Bytes), (c.run S).run tlvData = (.ok (), after) →
        ∃ info', getTlvDataInfo after = .ok info' ∧
          ∀ t ∈ info.extensionTypes, t ∈ info'.extensionTypes) ∧
    (∀ (c : TlvCall) (after : Bytes), (c.run S).run tlvData = (.ok (), after) →
      getExtensionBytes S c.type after =
        .ok (c.newValue (getExtensionBytes S c.type tlvData).toOption) ∧
      ∀ w, w ≠ c.type →
        (getExtensionBytes S w after).toOption = (getExtensionBytes S w tlvData).toOption) ∧
    (∀ v length, ((Bytes.realloc v length).run tlvData).1 ≠ .error .panic) ∧
    ((∀ c ∈ calls, c.Initialises) → (calls.map type).Nodup →
      ∀ calls' : List TlvCall,
        (calls'.map (withOverwrite false)).Perm (calls.map (withOverwrite false)) →
        ∃ tlvData', (runAll S calls').run (List.replicate n 0) = (.ok (), tlvData') ∧
          (∀ v, getExtensionBytes S v tlvData' = getExtensionBytes S v tlvData) ∧
          (getTlvDataInfo tlvData').map TlvDataInfo.usedLen =
            (getTlvDataInfo tlvData).map TlvDataInfo.usedLen) := by
  obtain ⟨m, h⟩ := runAll_layout (Layout.zeroes S n) hrun
  refine ⟨⟨_, h.holds.getTlvDataInfo_eq, h.nodup, h.base, fun i => h.zero_behind, ?_⟩, ?_,
    h.realloc_ne_panic, fun hinit hdistinct calls' hperm =>
      runAll_init_perm hinit hdistinct hperm hrun⟩
  · intro c after hc
    have hafter := (run_eq_ok h hc).1
    exact ⟨_, hafter.holds.getTlvDataInfo_eq, fun t ht => TypedStore.mem_tags_put.mpr (Or.inr ht)⟩
  · intro c after hc
    have hafter := (run_eq_ok h hc).1
    refine ⟨?_, fun w hw => ?_⟩
    · rw [h.getExtensionBytes_toOption, hafter.holds.getExtensionBytes_eq_ok hafter.base]
      exact TypedStore.get_put_self m c.type _
    · rw [h.getExtensionBytes_toOption, hafter.getExtensionBytes_toOption]
      exact TypedStore.get_put_of_ne m _ hw

/-- Two entries in sixteen bytes, in either order. -/
theorem tlv_area_is_map_marker :
    let calls := [alloc .transferHook 3 false (some [7, 8, 9]), alloc .nonTransferable 0 true none]
    (getExtensionBytes .mint .transferHook
      [14, 0, 3, 0, 7, 8, 9, 9, 0, 0, 0, 0, 0, 0, 0, 0] = .ok [7, 8, 9]) ∧
    ∃ tlvData', (runAll .mint calls.reverse).run (List.replicate 16 0) = (.ok (), tlvData') ∧
      ∀ v, getExtensionBytes .mint v tlvData' = getExtensionBytes .mint v
        [14, 0, 3, 0, 7, 8, 9, 9, 0, 0, 0, 0, 0, 0, 0, 0] := by
  intro calls
  have hrun : (runAll .mint calls).run (List.replicate 16 0) =
      (.ok (), [14, 0, 3, 0, 7, 8, 9, 9, 0, 0, 0, 0, 0, 0, 0, 0]) := by decide +kernel
  obtain ⟨_, _, _, horder⟩ := tlv_area_is_map .mint 16 calls _ hrun
  obtain ⟨tlvData', hrun', hlookup, _⟩ := horder (by simp [calls, Initialises]) (by decide)
    calls.reverse (by simp [List.reverse_perm])
  exact ⟨by decide +kernel, tlvData', hrun', hlookup⟩

end BarkToken
