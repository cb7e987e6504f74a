import BarkToken.Bytes.Views
import BarkToken.Bytes.Layout

/-!
# Predicted lengths on a laid out area (extension/mod.rs:371-391, 428-439)
-/

namespace BarkToken
open Fallible

namespace Bytes
namespace Layout

variable {S : BaseState} {m : Entries} {b : Bytes} {v : ExtensionType}

/-! ### More room, and less -/

theorem append_zeroes (h : Layout S m b) (j : ℕ) : Layout S m (b ++ List.replicate j 0) := by
  obtain ⟨k, hk⟩ := h.bytes
  refine ⟨⟨k + j, ?_⟩, h.fits, h.nodup, h.base⟩
  rw [hk, List.append_assoc, ← List.replicate_add]

theorem take (h : Layout S m b) {j : ℕ} (hj : (encode m).length ≤ j) :
    Layout S m (b.take j) := by
  obtain ⟨k, hk⟩ := h.bytes
  refine ⟨⟨min (j - (encode m).length) k, ?_⟩, h.fits, h.nodup, h.base⟩
  rw [hk, List.take_append, List.take_of_length_le hj, List.take_replicate]

theorem eq_nil_of_nil (h : Layout S m []) : m = [] := by
  obtain ⟨k, hk⟩ := h.bytes
  have hnil := (List.append_eq_nil_iff.mp hk.symm).1
  cases m with
  | nil => rfl
  | cons e m =>
    have hpos := congrArg List.length hnil
    rw [encode, List.length_append, length_entryBytes, List.length_nil] at hpos
    omega

/-! ### Lengths -/

theorem currentExtensionLen_eq (h : Layout S m b) (v : ExtensionType) :
    currentExtensionLen S v b = (m.get v).elim 0 fun x => 4 + x.length := by
  rw [currentExtensionLen]
  cases hfound : getExtensionBytes S v b with
  | ok x =>
    rw [(h.holds.getExtensionBytes_eq_ok h.base).mp hfound]
    simp only [addTypeAndLengthToLen, Option.elim]
    omega
  | error e =>
    cases hget : m.get v with
    | none => rfl
    | some x =>
      rw [(h.holds.getExtensionBytes_eq_ok h.base).mpr hget] at hfound
      cases hfound

/-- The length predicted for a value is the one its entry will need. -/
theorem tryGetNewAccountLen_eq (h : Layout S m b) (v : ExtensionType) (y : Bytes) :
    tryGetNewAccountLenForExtensionLen S v b y.length =
      .ok (adjustLenForMultisig (baseAccountAndTypeLength + (encode (m.put v y)).length)) := by
  have hold : currentExtensionLen S v b ≤ (encode m).length := by
    rw [h.currentExtensionLen_eq v]
    cases hget : m.get v with
    | some x => exact Holds.entry_le_of_get hget
    | none => exact Nat.zero_le _
  rw [tryGetNewAccountLenForExtensionLen, h.holds.getTlvDataInfo_eq, length_encode_put,
    ← h.currentExtensionLen_eq v]
  simp only [ok_bind, addTypeAndLengthToLen]
  refine congrArg Except.ok (congrArg adjustLenForMultisig ?_)
  omega

theorem tryGetAccountLen_eq (h : Layout S m b) (hne : m ≠ []) :
    tryGetAccountLen S b =
      .ok (adjustLenForMultisig (baseAccountAndTypeLength + (encode m).length)) := by
  have htags : m.tags ≠ [] := by
    intro hnil
    exact hne (List.map_eq_nil_iff.mp hnil)
  rw [tryGetAccountLen, h.holds.getTlvDataInfo_eq, ok_bind, if_neg htags,
    Nat.add_comm (encode m).length]
  rfl

end Layout

theorem le_adjustLenForMultisig (n : ℕ) : n ≤ adjustLenForMultisig n := by
  unfold adjustLenForMultisig
  split <;> omega

end Bytes
end BarkToken
