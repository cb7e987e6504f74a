import BarkToken.Guarantee.PackPod

/-!
# Packing a state (state.rs:51-315, extension/mod.rs:857-860)

The three packed states are records of fields in fixed places. What is packed over
any buffer is unpacked again, and what is unpacked is packed to the bytes it came
from, with the bodies that a `None` leaves behind its tag.
-/

namespace BarkToken
open Fallible

namespace Bytes

/-! ### The trait -/

/-- `Pack::pack`. -/
def pack {α : Type} (len : ℕ) (packIntoSlice : α → Bytes → Bytes) (src : α) (dst : Bytes) :
    Except Fault Bytes := do
  ensure (dst.length = len) (ProgramError.invalidAccountData : Fault)
  return packIntoSlice src dst

/-- `Pack::unpack_unchecked`, for any packed type. -/
def unpackUncheckedOf {α : Type} (len : ℕ) (unpackFromSlice : Bytes → Except Fault α)
    (input : Bytes) : Except Fault α := do
  ensure (input.length = len) (ProgramError.invalidAccountData : Fault)
  unpackFromSlice input

/-- Packing and unpacking undo one another, and packing another value over a buffer
changes bytes only where its fields differ. -/
structure RoundTrips {α : Type} (layout : RecordLayout UInt8 α) (len : ℕ)
    (packIntoSlice : α → Bytes → Bytes) (unpackFromSlice : Bytes → Except Fault α) : Prop where
  unpack_pack : ∀ x dst, dst.length = len → ∃ b, pack len packIntoSlice x dst = .ok b ∧
    b.length = len ∧ unpackUncheckedOf len unpackFromSlice b = .ok x
  pack_unpack : ∀ b x, unpackUncheckedOf len unpackFromSlice b = .ok x →
    pack len packIntoSlice x b = .ok b
  modified : ∀ b x y b', unpackUncheckedOf len unpackFromSlice b = .ok x →
    pack len packIntoSlice y b = .ok b' → ∀ i, b'[i]? ≠ b[i]? → layout.Touches x y i

/-! ### Layouts -/

def mintLayout : RecordLayout UInt8 PodMint :=
  [keyField.optionCodec.at PodMint.mintAuthority,
   u64Field.codec.at PodMint.supply,
   (byteCodec id).at PodMint.decimals,
   (byteCodec boolByte).at PodMint.isInitialized,
   keyField.optionCodec.at PodMint.freezeAuthority]

def accountLayout : RecordLayout UInt8 PodAccount :=
  [keyField.codec.at PodAccount.mint,
   keyField.codec.at PodAccount.owner,
   u64Field.codec.at PodAccount.amount,
   keyField.optionCodec.at PodAccount.delegate,
   (byteCodec stateByte).at PodAccount.state,
   u64Field.optionCodec.at PodAccount.isNative,
   u64Field.codec.at PodAccount.delegatedAmount,
   keyField.optionCodec.at PodAccount.closeAuthority]

/-- The signers from position `i` on. -/
def signersLayout : List (Fin 11) → RecordLayout UInt8 PodMultisig
  | [] => []
  | i :: is => keyField.codec.at (fun m => m.signers.get i) :: signersLayout is

def multisigLayout : RecordLayout UInt8 PodMultisig :=
  (byteCodec id).at PodMultisig.m :: (byteCodec id).at PodMultisig.n ::
    (byteCodec boolByte).at PodMultisig.isInitialized :: signersLayout (List.finRange 11)

def baseLayout : (S : BaseState) → RecordLayout UInt8 (Packed S)
  | .mint => mintLayout
  | .account => accountLayout

/-- `S::pack_into_slice`. -/
def packIntoSlice : (S : BaseState) → Packed S → Bytes → Bytes
  | .mint => packMint
  | .account => packAccount

/-- `StateWithExtensionsMut::pack_base`, of a view whose base state is now `value`. -/
def PodStateMut.packBase (S : BaseState) (s : PodStateMut) (value : Packed S) : PodStateMut :=
  { s with base := packIntoSlice S value s.base }

variable {b : Bytes}

/-- What is written and read field by field is packed and unpacked. -/
theorem RoundTrips.of_layout {α : Type} {layout : RecordLayout UInt8 α} {len : ℕ}
    {packIntoSlice : α → Bytes → Bytes} {unpackFromSlice : Bytes → Except Fault α}
    (hwidth : layout.width = len)
    (hpack : ∀ x b, b.length = len → packIntoSlice x b = layout.write x b)
    (hunpack : ∀ b x, b.length = len → (unpackFromSlice b = .ok x ↔ layout.Reads b x)) :
    RoundTrips layout len packIntoSlice unpackFromSlice := by
  have hok : ∀ b x, unpackUncheckedOf len unpackFromSlice b = .ok x ↔
      b.length = len ∧ layout.Reads b x := by
    intro b x
    rw [unpackUncheckedOf, ensure_bind_eq_ok]
    exact and_congr_right fun hlen => hunpack b x hlen
  have hwritten : ∀ x b b', pack len packIntoSlice x b = .ok b' ↔
      b.length = len ∧ layout.write x b = b' := by
    intro x b b'
    rw [pack, ensure_bind_eq_ok, pure_eq_ok]
    exact and_congr_right fun hlen => by rw [hpack x b hlen]
  refine ⟨fun x dst hlen => ?_, fun b x h => ?_, fun b x y b' h h' i hne => ?_⟩
  · have hdst : dst.length = layout.width := hlen.trans hwidth.symm
    have hlength := (layout.length_write x hdst).trans hwidth
    exact ⟨_, (hwritten x dst _).mpr ⟨hlen, rfl⟩, hlength,
      (hok _ x).mpr ⟨hlength, layout.reads_write x hdst⟩⟩
  · obtain ⟨hlen, hread⟩ := (hok b x).mp h
    exact (hwritten x b b).mpr ⟨hlen, layout.write_of_reads (hlen.trans hwidth.symm) hread⟩
  · obtain ⟨hlen, hread⟩ := (hok b x).mp h
    obtain ⟨-, rfl⟩ := (hwritten y b b').mp h'
    exact layout.touches_of_ne (hlen.trans hwidth.symm) hread hne

/-! ### Fields of a buffer -/

section Fields

variable {i : ℕ}

theorem byte_field (h : i < b.length) : byte (field b i 1) 0 = byte b i := by
  rw [field_one h]
  rfl

theorem key_field (h : i + 32 ≤ b.length) : key (field b i 32) 0 = key b i :=
  keyField.value_field h

theorem u64_field (h : i + 8 ≤ b.length) : u64 (field b i 8) 0 = u64 b i :=
  u64Field.value_field h

theorem podKey_field (h : i + 36 ≤ b.length) : podKey (field b i 36) 0 = podKey b i :=
  keyField.option_field h

theorem podU64_field (h : i + 12 ≤ b.length) : podU64 (field b i 12) 0 = podU64 b i :=
  u64Field.option_field h

end Fields

/-! ### Mints and accounts -/

theorem packMint_eq_write (m : PodMint) (b : Bytes) : packMint m b = mintLayout.write m b := by
  simp only [mintLayout, RecordLayout.write, List.drop_drop, List.append_nil]
  rfl

theorem packAccount_eq_write (a : PodAccount) (b : Bytes) :
    packAccount a b = accountLayout.write a b := by
  simp only [accountLayout, RecordLayout.write, List.drop_drop, List.append_nil]
  rfl

theorem unpackMint_eq_ok_iff_reads {m : PodMint} (h : b.length = 82) :
    unpackMint b = .ok m ↔ mintLayout.Reads b m := by
  have hreads : mintLayout.Reads b m ↔ (podKey (field b 0 36) 0).Agrees m.mintAuthority ∧
      u64 (field b 36 8) 0 = m.supply ∧ byte (field b 44 1) 0 = m.decimals ∧
      byte (field b 45 1) 0 = boolByte m.isInitialized ∧
      (podKey (field b 46 36) 0).Agrees m.freezeAuthority ∧ True := by
    simp only [mintLayout, RecordLayout.Reads, List.drop_drop]
    rfl
  have hagrees : unpackMint b = .ok m ↔ MintAgrees (podMint b) m := unpackFromSlice_eq_ok (S := .mint)
  rw [hagrees, hreads, podKey_field (by omega), u64_field (by omega), byte_field (by omega),
    byte_field (by omega), podKey_field (by omega)]
  constructor
  · intro hm
    exact ⟨hm.mintAuthority, hm.supply, hm.decimals, hm.isInitialized, hm.freezeAuthority, trivial⟩
  · rintro ⟨hmint, hsupply, hdecimals, hinit, hfreeze, -⟩
    exact ⟨hmint, hsupply, hdecimals, hinit, hfreeze⟩

theorem unpackAccount_eq_ok_iff_reads {a : PodAccount} (h : b.length = 165) :
    unpackAccount b = .ok a ↔ accountLayout.Reads b a := by
  have hreads : accountLayout.Reads b a ↔ key (field b 0 32) 0 = a.mint ∧
      key (field b 32 32) 0 = a.owner ∧ u64 (field b 64 8) 0 = a.amount ∧
      (podKey (field b 72 36) 0).Agrees a.delegate ∧ byte (field b 108 1) 0 = stateByte a.state ∧
      (podU64 (field b 109 12) 0).Agrees a.isNative ∧
      u64 (field b 121 8) 0 = a.delegatedAmount ∧
      (podKey (field b 129 36) 0).Agrees a.closeAuthority ∧ True := by
    simp only [accountLayout, RecordLayout.Reads, List.drop_drop]
    rfl
  have hagrees : unpackAccount b = .ok a ↔ AccountAgrees (podAccount b) a :=
    unpackFromSlice_eq_ok (S := .account)
  rw [hagrees, hreads, key_field (by omega), key_field (by omega), u64_field (by omega),
    podKey_field (by omega), byte_field (by omega), podU64_field (by omega), u64_field (by omega),
    podKey_field (by omega)]
  constructor
  · intro ha
    exact ⟨ha.mint, ha.owner, ha.amount, ha.delegate, ha.state, ha.isNative, ha.delegatedAmount,
      ha.closeAuthority, trivial⟩
  · rintro ⟨hmint, howner, hamount, hdelegate, hstate, hnative, hdelegated, hclose, -⟩
    exact ⟨hmint, howner, hamount, hdelegate, hstate, hnative, hdelegated, hclose⟩

/-! ### Multisigs -/

theorem signers_get (v : Vector Pubkey 11) {k : ℕ} (hk : k < 11) : v.get ⟨k, hk⟩ = v[k] := rfl

/-- The signers behind the third byte, one key after another. -/
theorem write_signersLayout (m : PodMultisig) (is : List (Fin 11)) (p : Bytes) :
    (signersLayout is).write m p = is.flatMap fun i => keyBytes (m.signers.get i) := by
  induction is generalizing p with
  | nil => rfl
  | cons i is ih =>
    rw [signersLayout, RecordLayout.write, ih, List.flatMap_cons]
    rfl

/-- The `k`-th of the keys is the one at the `k`-th place. -/
theorem reads_signersLayout {m : PodMultisig} {is : List (Fin 11)} {p : Bytes} :
    (signersLayout is).Reads p m ↔
      ∀ k, ∀ hk : k < is.length, key (field p (32 * k) 32) 0 = m.signers.get is[k] := by
  induction is generalizing p with
  | nil =>
    simp only [signersLayout, RecordLayout.Reads, true_iff]
    intro k hk
    exact absurd hk (Nat.not_lt_zero k)
  | cons i is ih =>
    have hsplit : (signersLayout (i :: is)).Reads p m ↔
        key (field p 0 32) 0 = m.signers.get i ∧ (signersLayout is).Reads (p.drop 32) m := Iff.rfl
    have hshift : ∀ k, field (p.drop 32) (32 * k) 32 = field p (32 * (k + 1)) 32 := by
      intro k
      rw [field, field, List.drop_drop, show 32 + 32 * k = 32 * (k + 1) by omega]
    rw [hsplit, ih]
    constructor
    · rintro ⟨hfirst, hrest⟩ k hk
      cases k with
      | zero => exact hfirst
      | succ k =>
        rw [← hshift k]
        exact hrest k (Nat.lt_of_succ_lt_succ hk)
    · intro hall
      refine ⟨hall 0 (Nat.succ_pos _), fun k hk => ?_⟩
      rw [hshift k]
      exact hall (k + 1) (Nat.succ_lt_succ hk)

theorem packMultisig_eq_write (m : PodMultisig) (b : Bytes) :
    packMultisig m b = multisigLayout.write m b := by
  have hsigners : m.signers.toList = (List.finRange 11).map fun i => m.signers.get i := by
    refine List.ext_getElem ?_ fun k hk hk' => ?_
    · simp
    · simp [signers_get]
  have hwrite : multisigLayout.write m b = m.m :: m.n :: boolByte m.isInitialized ::
      (signersLayout (List.finRange 11)).write m (((b.drop 1).drop 1).drop 1) := rfl
  rw [packMultisig, hwrite, write_signersLayout, hsigners, List.flatMap_map]

theorem unpackMultisig_eq_ok_iff_reads {m : PodMultisig} (h : b.length = 355) :
    unpackMultisig b = .ok m ↔ multisigLayout.Reads b m := by
  have hreads : multisigLayout.Reads b m ↔ byte (field b 0 1) 0 = m.m ∧ byte (field b 1 1) 0 = m.n ∧
      byte (field b 2 1) 0 = boolByte m.isInitialized ∧
      (signersLayout (List.finRange 11)).Reads (b.drop 3) m := by
    simp only [multisigLayout, RecordLayout.Reads, List.drop_drop]
    rfl
  have hsigner : ∀ k, k < 11 → key (field (b.drop 3) (32 * k) 32) 0 = key b (3 + 32 * k) := by
    intro k hk
    rw [field, List.drop_drop]
    exact key_field (by omega)
  rw [hreads, reads_signersLayout, byte_field (by omega), byte_field (by omega),
    byte_field (by omega)]
  simp only [unpackMultisig, bind_eq_ok, unpackBool_eq_ok, pure_eq_ok]
  constructor
  · rintro ⟨initialized, hinit, rfl⟩
    refine ⟨rfl, rfl, hinit, fun k hk => ?_⟩
    have hk' : k < 11 := by simpa using hk
    rw [hsigner k hk', List.getElem_finRange]
    show _ = Vector.get _ ⟨k, hk'⟩
    rw [signers_get, Vector.getElem_ofFn]
  · rintro ⟨hm, hn, hinit, hkeys⟩
    refine ⟨m.isInitialized, hinit, ?_⟩
    have hsigners : (Vector.ofFn fun i : Fin 11 => key b (3 + 32 * i)) = m.signers := by
      ext k hk
      have hkey := hkeys k (by simpa using hk)
      rw [hsigner k hk] at hkey
      simpa [signers_get] using hkey
    rw [hm, hn, hsigners]

/-! ### Base states in their accounts -/

theorem mint_round_trips : RoundTrips mintLayout 82 packMint unpackMint :=
  .of_layout rfl (fun m b _ => packMint_eq_write m b) fun _ _ => unpackMint_eq_ok_iff_reads

theorem account_round_trips : RoundTrips accountLayout 165 packAccount unpackAccount :=
  .of_layout rfl (fun a b _ => packAccount_eq_write a b) fun _ _ => unpackAccount_eq_ok_iff_reads

theorem multisig_round_trips : RoundTrips multisigLayout 355 packMultisig unpackMultisig :=
  .of_layout rfl (fun m b _ => packMultisig_eq_write m b) fun _ _ => unpackMultisig_eq_ok_iff_reads

theorem base_round_trips (S : BaseState) :
    RoundTrips (baseLayout S) S.sizeOf (packIntoSlice S) (unpackFromSlice S) := by
  cases S with
  | mint => exact mint_round_trips
  | account => exact account_round_trips

/-- A base state is changed in place: bytes behind it stay. -/
theorem packBase_touches {S : BaseState} {s : PodStateMut} {v : Packed S}
    (h : unpackPackedMut S b = .ok (v, s)) (w : Packed S) {i : ℕ}
    (hne : (s.packBase S w).data[i]? ≠ b[i]?) : (baseLayout S).Touches v w i := by
  obtain ⟨hview, hvalue⟩ := unpackPackedMut_eq_ok.mp h
  obtain ⟨hshaped, hdata, -, -⟩ := unpackMut_eq_ok.mp hview
  have hbase : s.base.length = S.sizeOf := hshaped.base
  have hread : unpackUncheckedOf S.sizeOf (unpackFromSlice S) s.base = .ok v := by
    rw [unpackUncheckedOf, ensure_bind_eq_ok]
    exact ⟨hbase, hvalue⟩
  obtain ⟨written, hpack, hlength, -⟩ := (base_round_trips S).unpack_pack w s.base hbase
  have hwritten : packIntoSlice S w s.base = written := by
    rw [pack, ensure_bind_eq_ok, pure_eq_ok] at hpack
    exact hpack.2
  apply (base_round_trips S).modified s.base v w written hread hpack i
  intro heq
  apply hne
  have hbehind : ∀ base : Bytes, base.length = S.sizeOf → S.sizeOf ≤ i →
      (base ++ (s.padding ++ (s.accountType ++ s.tlvData)))[i]? =
        (s.padding ++ (s.accountType ++ s.tlvData))[i - S.sizeOf]? := by
    intro base hlen hi
    rw [List.getElem?_append_right (hlen.trans_le hi), hlen]
  rw [← hdata, PodStateMut.data, PodStateMut.data, PodStateMut.packBase, hwritten]
  simp only [List.append_assoc]
  rcases Nat.lt_or_ge i S.sizeOf with hi | hi
  · rw [List.getElem?_append_left (by omega), List.getElem?_append_left (by omega), heq]
  · rw [hbehind written hlength hi, hbehind s.base hbase hi]

/-- `unpack_unchecked` and `pack` undo one another for each of the three states, and
`pack_base` changes the bytes of changed fields only. -/
theorem states_round_trip :
    (RoundTrips mintLayout 82 packMint unpackMint ∧
      RoundTrips accountLayout 165 packAccount unpackAccount ∧
      RoundTrips multisigLayout 355 packMultisig unpackMultisig) ∧
    ∀ (S : BaseState) (b : Bytes) (s : PodStateMut) (v w : Packed S),
      unpackPackedMut S b = .ok (v, s) → (s.packBase S v).data = b ∧
        ∀ i, (s.packBase S w).data[i]? ≠ b[i]? → (baseLayout S).Touches v w i := by
  refine ⟨⟨mint_round_trips, account_round_trips, multisig_round_trips⟩, fun S b s v w h => ⟨?_, ?_⟩⟩
  · refine List.ext_getElem? fun i => ?_
    by_contra hne
    exact (baseLayout S).not_touches_self v i (packBase_touches h v hne)
  · intro i hne
    exact packBase_touches h w hne

end Bytes
end BarkToken
