import BarkToken.Bytes.Walk

/-!
# The two walks over a TLV area agree (extension/mod.rs:142-255, 327-365)

The size predictor and `realloc` trust `get_tlv_data_info`; reads and `alloc`
trust `get_extension_indices`. On any bytes, malformed ones included, neither
indexes out of range, and what the first accepts the second reads the same way.
-/

namespace BarkToken
open Fallible Bytes

/-- Whatever the bytes: no walk panics; and an accepted walk has passed over
entries that fill the used bytes, on which a lookup of a type of their account
type finds the first entry of that type, or fails where there is none. -/
theorem tlv_walkers_agree (tlvData : Bytes) :
    (getTlvDataInfo tlvData ≠ .error .panic ∧
      ∀ v init, getExtensionIndices v tlvData init ≠ .error .panic) ∧
    ∀ info, getTlvDataInfo tlvData = .ok info →
      ∃ m : Entries,
        m.tags = info.extensionTypes ∧
        tlvData.take info.usedLen = encode m ∧
        info.usedLen ≤ tlvData.length ∧
        info.usedLen = (m.map fun e => 4 + e.2.length).sum ∧
        ∀ S : BaseState, (∀ t ∈ info.extensionTypes, t.accountType = S.accountType) →
          ∀ v : ExtensionType, v.accountType = S.accountType →
            ((∃ x, getExtensionBytes S v tlvData = .ok x) ↔ v ∈ info.extensionTypes) ∧
            ∀ x, getExtensionBytes S v tlvData = .ok x →
              ∃ l r, m = l ++ ⟨v, x⟩ :: r ∧ v ∉ TypedStore.tags l ∧
                slice tlvData ((encode l).length + 4) ((encode l).length + 4 + x.length) = .ok x ∧
                (encode l).length + 4 + x.length ≤ info.usedLen := by
  refine ⟨⟨getTlvDataInfoFrom_ne_panic _ _ _,
    fun v init => getExtensionIndicesFrom_ne_panic v init _ _⟩, ?_⟩
  intro info hinfo
  obtain ⟨m, hm, rfl⟩ := getTlvDataInfo_eq_ok hinfo
  have hsum : (encode m).length = (m.map fun e => 4 + e.2.length).sum := by
    rw [length_encode]
    congr 1
    refine List.map_congr_left fun e _ => ?_
    simp only [addTypeAndLengthToLen]
    omega
  refine ⟨m, rfl, hm.take_used, hm.used_le, hsum, ?_⟩
  intro S hbase v _
  have hlookup := fun x => hm.getExtensionBytes_eq_ok hbase (v := v) (x := x)
  refine ⟨?_, ?_⟩
  · simp only [hlookup]
    rw [← Option.isSome_iff_exists]
    exact TypedStore.mem_tags_iff.symm
  · intro x hx
    obtain ⟨l, r, hsplit, hl⟩ := TypedStore.exists_split_of_get ((hlookup x).mp hx)
    obtain ⟨tail, hb, _⟩ := hm.bytes
    refine ⟨l, r, hsplit, hl, ?_, ?_⟩
    · have hvalue := slice_value_entry (encode l) v x (encode r ++ tail)
      have hparts : tlvData = encode l ++ entryBytes v x ++ (encode r ++ tail) := by
        rw [hb, hsplit, encode_split]
        simp only [List.append_assoc]
      rw [hparts]
      exact hvalue
    · rw [hsplit, encode_split]
      simp only [List.length_append, length_entryBytes]
      omega

/-- Two entries, and three stray bytes behind them. -/
theorem tlv_walkers_agree_stray :
    (∃ x, getExtensionBytes .account .memoTransfer [7, 0, 0, 0, 8, 0, 1, 0, 9, 0, 0, 5] = .ok x) ∧
    ¬ ∃ x, getExtensionBytes .account .cpiGuard [7, 0, 0, 0, 8, 0, 1, 0, 9, 0, 0, 5] = .ok x := by
  obtain ⟨_, hagree⟩ := tlv_walkers_agree [7, 0, 0, 0, 8, 0, 1, 0, 9, 0, 0, 5]
  obtain ⟨m, _, _, _, _, hlookup⟩ :=
    hagree ⟨[.immutableOwner, .memoTransfer], 9⟩ (by decide +kernel)
  have hbase := hlookup .account (by decide)
  exact ⟨(hbase .memoTransfer rfl).1.mpr (by decide), fun h =>
    absurd ((hbase .cpiGuard rfl).1.mp h) (by decide)⟩

end BarkToken
