import BarkToken.Bytes.Walk
import BarkToken.Foundation.Avoids
import BarkToken.Wire.Pod

/-!
# Two decoders and one encoder

Both decoders undo `pack`. What the decoder of `Processor::process` accepts is what
`pack` writes, with more bytes behind it only where nothing reads them, and `unpack`
takes the same from it.
-/

namespace BarkToken
namespace Wire
open Fallible Bytes

/-! ### Fields -/

section Fields

variable {α : Type} (c : PacketCodec UInt8 α)

theorem slice_front {b : Bytes} {n : ℕ} (h : n ≤ b.length) : Buffer.slice b 0 n = some (b.take n) := by
  rw [Buffer.slice_isSome (Nat.zero_le n) h, List.drop_zero, Nat.sub_zero]

theorem slice_back {b : Bytes} {n : ℕ} (h : n ≤ b.length) : slice b n b.length = .ok (b.drop n) := by
  rw [slice, Buffer.slice_isSome h le_rfl, List.take_of_length_le (by rw [List.length_drop])]
  rfl

theorem slice_tail (x : UInt8) (rest : Bytes) : slice (x :: rest) 1 (x :: rest).length = .ok rest :=
  slice_back (b := x :: rest) (n := 1) (by rw [List.length_cons]; omega)

theorem getFront_write (v : α) (y : Bytes) : getFront c (c.write v ++ y) = some v := by
  have hlen : c.width ≤ (c.write v ++ y).length := by
    rw [List.length_append, c.length_write]
    omega
  rw [getFront, slice_front hlen, Option.map_some, c.read_front]

theorem getFront_eq_some {b : Bytes} {v : α} : getFront c b = some v ↔ ∃ y, b = c.write v ++ y := by
  constructor
  · intro h
    by_cases hlen : c.width ≤ b.length
    · rw [getFront, slice_front hlen, Option.map_some, Option.some.injEq] at h
      exact ⟨b.drop c.width, by rw [← h, c.write_front hlen]⟩
    · rw [getFront, Buffer.slice, if_neg (fun h => hlen h.2)] at h
      cases h
  · rintro ⟨y, rfl⟩
    exact getFront_write c v y

theorem unpackFront_write (v : α) (y : Bytes) : unpackFront c (c.write v ++ y) = .ok (v, y) := by
  have hlen : c.width ≤ (c.write v ++ y).length := by
    rw [List.length_append, c.length_write]
    omega
  rw [unpackFront, getFront_write, okOr, ok_bind, slice_back hlen, ok_bind, c.drop_front]
  rfl

end Fields

theorem unpackPubkey_write (k : Pubkey) (y : Bytes) : unpackPubkey (keyBytes k ++ y) = .ok (k, y) :=
  unpackFront_write pubkey k y

theorem unpackU16_write (n : UInt16) (y : Bytes) : unpackU16 (u16Bytes n ++ y) = .ok (n, y) :=
  unpackFront_write basisPoints n y

theorem unpackU64_write (n : UInt64) (y : Bytes) : unpackU64 (u64Bytes n ++ y) = .ok (n, y) :=
  unpackFront_write amount n y

theorem unpackAmount_write (n : UInt64) (y : Bytes) :
    TokenInstruction.unpackAmount (u64Bytes n ++ y) = .ok n := by
  rw [TokenInstruction.unpackAmount, show u64Bytes n ++ y = amount.write n ++ y from rfl,
    getFront_write, okOr]

theorem unpackPubkeyOption_pack (o : Option Pubkey) (y : Bytes) :
    unpackPubkeyOption (packPubkeyOption o ++ y) = .ok (o, y) := by
  cases o with
  | none => rfl
  | some k =>
    simp only [packPubkeyOption, List.cons_append, unpackPubkeyOption, unpackPubkey_write, ok_bind]
    rfl

theorem unpackAmountDecimals_pack (n : UInt64) (decimals : UInt8) (y : Bytes) :
    unpackAmountDecimals (u64Bytes n ++ decimals :: y) = .ok (n, decimals, y) := by
  simp only [unpackAmountDecimals, unpackU64_write, ok_bind, splitFirst, okOr]
  rfl

theorem authorityFrom_byte (t : AuthorityType) : authorityFrom (authorityByte t) = .ok t := by
  cases t <;> rfl

theorem fromUtf8_bytes (s : String) : fromUtf8 (utf8Bytes s) = some s := by
  unfold fromUtf8 utf8Bytes String.fromUTF8?
  rw [Array.toArray_toList]
  exact dif_pos s.isValidUTF8

theorem fromUtf8_eq_some {b : Bytes} {s : String} : fromUtf8 b = some s ↔ b = utf8Bytes s := by
  constructor
  · intro h
    unfold fromUtf8 String.fromUTF8? at h
    split at h
    case isTrue hvalid =>
      obtain rfl := Option.some.inj h
      exact List.toList_toArray.symm
    case isFalse => cases h
  · rintro rfl
    exact fromUtf8_bytes s

/-! ### Lists of extension types -/

theorem extensionTypeTryFrom_bytes (t : Option ExtensionType) :
    extensionTypeTryFrom (extensionTypeBytes t) = .ok t := by
  cases t with
  | none => rfl
  | some t =>
    rw [extensionTypeBytes, extensionTypeTryFrom, fromLeBytes_toLeBytes t.toU16_lt, okOr, ok_bind,
      ExtensionType.tryFromU16_toU16]

theorem extensionTypeTryFrom_eq_ok {b : Bytes} {t : Option ExtensionType} :
    extensionTypeTryFrom b = .ok t ↔ b = extensionTypeBytes t := by
  constructor
  · intro h
    rw [extensionTypeTryFrom, bind_eq_ok] at h
    obtain ⟨n, hn, ht⟩ := h
    obtain ⟨rfl, hlt⟩ := fromLeBytes_eq_some (okOr_eq_ok.mp hn)
    cases t with
    | none => rw [tryFromU16_eq_none ht, extensionTypeBytes]
    | some t => rw [tryFromU16_eq_some ht, extensionTypeBytes]
  · rintro rfl
    exact extensionTypeTryFrom_bytes t

theorem length_extensionTypeBytes (t : Option ExtensionType) : (extensionTypeBytes t).length = 2 := by
  cases t <;> rfl

theorem chunks_cons (t : Option ExtensionType) (y : Bytes) :
    chunks (extensionTypeBytes t ++ y) = extensionTypeBytes t :: chunks y := by
  obtain ⟨lo, hi, h⟩ := List.length_eq_two.mp (length_extensionTypeBytes t)
  rw [h]
  rfl

theorem mapM_chunks_eq_ok {b : Bytes} {ts : List (Option ExtensionType)} :
    (chunks b).mapM extensionTypeTryFrom = .ok ts ↔ b = ts.flatMap extensionTypeBytes := by
  constructor
  · intro h
    induction b using chunks.induct generalizing ts with
    | case1 =>
      rw [chunks, List.mapM_nil, pure_eq_ok] at h
      subst h
      rfl
    | case2 x =>
      rw [chunks, List.mapM_cons, bind_eq_ok] at h
      obtain ⟨t, ht, -⟩ := h
      have hlen := congrArg List.length (extensionTypeTryFrom_eq_ok.mp ht)
      rw [length_extensionTypeBytes] at hlen
      simp at hlen
    | case3 x y rest ih =>
      simp only [chunks, List.mapM_cons, bind_eq_ok, pure_eq_ok] at h
      obtain ⟨t, ht, us, hus, rfl⟩ := h
      rw [List.flatMap_cons, ← extensionTypeTryFrom_eq_ok.mp ht, ← ih hus]
      rfl
  · rintro rfl
    induction ts with
    | nil => rfl
    | cons t ts ih =>
      rw [List.flatMap_cons, chunks_cons, List.mapM_cons, extensionTypeTryFrom_bytes, ok_bind, ih]
      rfl

/-- The list grows type by type. -/
theorem unpackExtensionTypes_pack (ts : List (Option ExtensionType)) :
    TokenInstruction.unpackExtensionTypes (ts.flatMap extensionTypeBytes) = .ok ts := by
  have hloop (us : List (Option ExtensionType)) :
      loop (fun types chunk => do
        let t ← extensionTypeTryFrom chunk
        return types ++ [t]) (chunks (ts.flatMap extensionTypeBytes)) us = .ok (us ++ ts) := by
    induction ts generalizing us with
    | nil => rw [List.flatMap_nil, chunks, loop_nil, List.append_nil]
    | cons t ts ih =>
      have hrest := ih (us ++ [t])
      rw [List.append_assoc, List.singleton_append] at hrest
      rw [List.flatMap_cons, chunks_cons, loop_cons_eq_ok]
      exact ⟨us ++ [t], by rw [extensionTypeTryFrom_bytes, ok_bind]; rfl, hrest⟩
  exact hloop []

/-! ### `unpack` undoes `pack` -/

namespace TokenInstruction

/-- The last field takes all the rest of the bytes. -/
def takesRest : TokenInstruction → Bool
  | getAccountDataSize _ | uiAmountToAmount _ | reallocate _ => true
  | _ => false

theorem unpack_cons (tag : UInt8) (rest : Bytes) :
    unpack (tag :: rest) = unpackFields tag.toNat rest := rfl

/-- The same behind more bytes, which nothing reads. -/
theorem unpack_pack_append (i : TokenInstruction) {y : Bytes} (hy : i.takesRest = true → y = []) :
    unpack (i.pack ++ y) = .ok i := by
  cases i with
  | getAccountDataSize ts =>
    rw [hy rfl, List.append_nil, pack, unpack_cons]
    simp only [UInt8.reduceToNat, unpackFields, unpackExtensionTypes_pack, ok_bind]
    rfl
  | reallocate ts =>
    rw [hy rfl, List.append_nil, pack, unpack_cons]
    simp only [UInt8.reduceToNat, unpackFields, unpackExtensionTypes_pack, ok_bind]
    rfl
  | uiAmountToAmount s =>
    rw [hy rfl, List.append_nil, pack, unpack_cons]
    simp only [UInt8.reduceToNat, unpackFields, fromUtf8_bytes, okOr, ok_bind]
    rfl
  | setAuthority t o =>
    rw [pack, List.cons_append, unpack_cons]
    simp only [UInt8.reduceToNat, unpackFields, List.cons_append, splitFirst, okOr, ok_bind,
      authorityFrom_byte, unpackPubkeyOption_pack]
    rfl
  | _ =>
    rw [pack, List.cons_append, unpack_cons]
    simp only [UInt8.reduceToNat, unpackFields, List.cons_append, List.append_assoc, List.nil_append,
      splitFirst, okOr, ok_bind, unpackPubkey_write, unpackPubkeyOption_pack, unpackAmount_write,
      unpackU64_write, unpackAmountDecimals_pack]
    rfl

end TokenInstruction

theorem TransferFeeInstruction.unpack_bytes (i : TransferFeeInstruction) : unpack i.bytes = .ok i := by
  cases i with
  | initializeTransferFeeConfig a b basisPoints maximumFee =>
    have hlast := unpackU64_write maximumFee []
    rw [List.append_nil] at hlast
    simp only [bytes, unpack, unpackFields, splitFirst, okOr, ok_bind, UInt8.reduceToNat,
      unpackPubkeyOption_pack, unpackU16_write, hlast]
    rfl
  | transferCheckedWithFee amount decimals fee =>
    have hlast := unpackU64_write fee []
    rw [List.append_nil] at hlast
    simp only [bytes, unpack, unpackFields, splitFirst, okOr, ok_bind, UInt8.reduceToNat,
      unpackAmountDecimals_pack, hlast]
    rfl
  | setTransferFee basisPoints maximumFee =>
    have hlast := unpackU64_write maximumFee []
    rw [List.append_nil] at hlast
    simp only [bytes, unpack, unpackFields, splitFirst, okOr, ok_bind, UInt8.reduceToNat,
      unpackU16_write, hlast]
    rfl
  | withdrawWithheldTokensFromMint => rfl
  | withdrawWithheldTokensFromAccounts n => rfl
  | harvestWithheldTokensToMint => rfl

/-! ### The decoder of `Processor::process` -/

section Pod

variable {α : Type} (c : PacketCodec UInt8 α) {x : UInt8} {rest : Bytes} {v : α}

theorem podFromBytes_eq_ok {b : Bytes} : podFromBytes c b = .ok v ↔ b = c.write v := by
  rw [podFromBytes, ensure_bind_eq_ok, pure_eq_ok]
  constructor
  · rintro ⟨hlen, rfl⟩
    exact (c.write_read b hlen).symm
  · rintro rfl
    exact ⟨c.length_write v, c.read_write v⟩

theorem decodeInstructionData_eq_ok :
    decodeInstructionData c (x :: rest) = .ok v ↔ rest = c.write v := by
  rw [decodeInstructionData, slice_tail, ok_bind, podFromBytes_eq_ok c |>.symm]
  split
  case isTrue hlen =>
    rw [podFromBytes_eq_ok]
    constructor
    · intro h
      cases h
    · rintro rfl
      rw [List.length_cons, c.length_write] at hlen
      exact absurd rfl hlen
  case isFalse => exact Iff.rfl

theorem podUnpackPubkeyOption_eq_ok {b : Bytes} {o : Option Pubkey} :
    podUnpackPubkeyOption b = .ok o ↔ ∃ y, b = packPubkeyOption o ++ y := by
  constructor
  · intro h
    unfold podUnpackPubkeyOption at h
    split at h
    case h_1 y =>
      obtain rfl := Except.ok.inj h
      exact ⟨y, rfl⟩
    case h_2 y =>
      rw [bind_eq_ok] at h
      obtain ⟨k, hk, h⟩ := h
      obtain rfl := pure_eq_ok.mp h
      obtain ⟨z, rfl⟩ := (getFront_eq_some pubkey).mp (okOr_eq_ok.mp hk)
      exact ⟨z, rfl⟩
    case h_3 => cases h
  · rintro ⟨y, rfl⟩
    cases o with
    | none => rfl
    | some k =>
      have hk : getFront pubkey (keyBytes k ++ y) = some k := getFront_write pubkey k y
      simp only [packPubkeyOption, List.cons_append, podUnpackPubkeyOption, hk, okOr, ok_bind]
      rfl

theorem decodeWithCOption_eq_ok {o : Option Pubkey} :
    decodeInstructionDataWithCOptionPubkey c (x :: rest) = .ok (v, o) ↔
      ∃ y, rest = c.write v ++ (packPubkeyOption o ++ y) := by
  by_cases hlen : c.width ≤ rest.length
  · have hdata : Buffer.slice (x :: rest) 1 (c.width + 1) = some (rest.take c.width) := by
      rw [Buffer.slice_isSome (by omega) (by rw [List.length_cons]; omega)]
      rfl
    have hback : slice (x :: rest) (c.width + 1) (x :: rest).length = .ok (rest.drop c.width) :=
      slice_back (b := x :: rest) (by rw [List.length_cons]; omega)
    simp only [decodeInstructionDataWithCOptionPubkey, hdata, hback, okOr, ok_bind, bind_eq_ok,
      podFromBytes_eq_ok, podUnpackPubkeyOption_eq_ok, pure_eq_ok, Prod.mk.injEq]
    constructor
    · rintro ⟨w, htake, o', ⟨y, hdrop⟩, rfl, rfl⟩
      exact ⟨y, by rw [← htake, ← hdrop, List.take_append_drop]⟩
    · rintro ⟨y, rfl⟩
      exact ⟨v, List.take_left' (c.length_write v), o, ⟨y, c.drop_front v _⟩, rfl, rfl⟩
  · have hdata : Buffer.slice (x :: rest) 1 (c.width + 1) = none :=
      if_neg fun h => hlen (by rw [List.length_cons] at h; omega)
    rw [decodeInstructionDataWithCOptionPubkey, hdata]
    constructor
    · intro h
      cases h
    · rintro ⟨y, rfl⟩
      rw [List.length_append, c.length_write] at hlen
      omega

theorem decodeExtensionTypes_eq_ok {ts : List (Option ExtensionType)} :
    decodeExtensionTypes (x :: rest) = .ok ts ↔ rest = ts.flatMap extensionTypeBytes := by
  rw [decodeExtensionTypes, slice_tail, ok_bind, mapM_chunks_eq_ok]

theorem authorityFrom_eq_ok {t : AuthorityType} : authorityFrom x = .ok t ↔ x = authorityByte t := by
  constructor
  · intro h
    unfold authorityFrom at h
    rw [← UInt8.toNat_inj]
    split at h <;> cases h <;> assumption
  · rintro rfl
    exact authorityFrom_byte t

namespace PodTokenInstruction

theorem tryFrom_into (t : PodTokenInstruction) : tryFrom t.into = some t := by
  cases t <;> rfl

theorem tryFrom_eq_some {t : PodTokenInstruction} (h : tryFrom x = some t) : x = t.into := by
  have hidx : variants.idxOf t = x.toNat := by
    obtain ⟨hlt, rfl⟩ := List.getElem?_eq_some_iff.mp h
    exact List.Nodup.idxOf_getElem (by decide) _ hlt
  rw [into, hidx, UInt8.ofNat_toNat]

/-- What the arms of `Processor::process` accept is what `pack` writes. -/
theorem decode_sound {t : PodTokenInstruction} {i : TokenInstruction}
    (h : t.decode (t.into :: rest) = .ok i) :
    ∃ y, t.into :: rest = i.pack ++ y ∧ (i.takesRest = true → y = []) := by
  cases t with
  | transfer | approve | mintTo | burn | amountToUiAmount | initializeAccount2 | initializeAccount3
    | initializeMultisig | initializeMultisig2 | initializePermanentDelegate =>
    simp only [decode, bind_eq_ok, decodeInstructionData_eq_ok, pure_eq_ok] at h
    obtain ⟨v, rfl, rfl⟩ := h
    exact ⟨[], (List.append_nil _).symm, fun _ => rfl⟩
  | transferChecked | approveChecked | mintToChecked | burnChecked =>
    simp only [decode, bind_eq_ok, decodeInstructionData_eq_ok, pure_eq_ok] at h
    obtain ⟨v, rfl, rfl⟩ := h
    exact ⟨[], (List.append_nil _).symm, fun _ => rfl⟩
  | initializeMint | initializeMint2 =>
    simp only [decode, bind_eq_ok, Prod.exists, decodeWithCOption_eq_ok, pure_eq_ok] at h
    obtain ⟨decimals, key, o, ⟨y, rfl⟩, rfl⟩ := h
    refine ⟨y, ?_, fun h => by cases h⟩
    simp only [TokenInstruction.pack, List.cons_append, List.append_assoc]
    rfl
  | setAuthority =>
    simp only [decode, bind_eq_ok, Prod.exists, decodeWithCOption_eq_ok, authorityFrom_eq_ok,
      pure_eq_ok] at h
    obtain ⟨z, o, ⟨y, rfl⟩, t, rfl, rfl⟩ := h
    exact ⟨y, rfl, fun h => by cases h⟩
  | initializeMintCloseAuthority =>
    simp only [decode, bind_eq_ok, Prod.exists, decodeWithCOption_eq_ok, pure_eq_ok] at h
    obtain ⟨-, o, ⟨y, rfl⟩, rfl⟩ := h
    exact ⟨y, rfl, fun h => by cases h⟩
  | getAccountDataSize | reallocate =>
    simp only [decode, bind_eq_ok, decodeExtensionTypes_eq_ok, pure_eq_ok] at h
    obtain ⟨ts, rfl, rfl⟩ := h
    exact ⟨[], (List.append_nil _).symm, fun _ => rfl⟩
  | uiAmountToAmount =>
    simp only [decode, slice_tail, ok_bind, bind_eq_ok, okOr_eq_ok, fromUtf8_eq_some, pure_eq_ok] at h
    obtain ⟨s, rfl, rfl⟩ := h
    exact ⟨[], (List.append_nil _).symm, fun _ => rfl⟩
  | _ =>
    obtain rfl := pure_eq_ok.mp h
    exact ⟨rest, rfl, fun h => by cases h⟩

end PodTokenInstruction

theorem decodePod_cons {t : PodTokenInstruction} (h : PodTokenInstruction.tryFrom x = some t) :
    decodePod (x :: rest) = t.decode (x :: rest) := by
  rw [decodePod, decodeInstructionType, h, okOr, ok_bind]

/-- The decoder undoes `pack` too. -/
theorem decodePod_pack (i : TokenInstruction) : decodePod i.pack = .ok i := by
  cases i with
  | transfer n | approve n | mintTo n | burn n | amountToUiAmount n | initializeAccount2 n
    | initializeAccount3 n | initializePermanentDelegate n =>
    rw [TokenInstruction.pack, decodePod_cons rfl]
    simp only [PodTokenInstruction.decode, bind_eq_ok, decodeInstructionData_eq_ok, pure_eq_ok]
    exact ⟨n, rfl, rfl⟩
  | initializeMultisig m | initializeMultisig2 m =>
    rw [TokenInstruction.pack, decodePod_cons rfl]
    simp only [PodTokenInstruction.decode, bind_eq_ok, decodeInstructionData_eq_ok, pure_eq_ok]
    exact ⟨m, rfl, rfl⟩
  | transferChecked n decimals | approveChecked n decimals | mintToChecked n decimals
    | burnChecked n decimals =>
    rw [TokenInstruction.pack, decodePod_cons rfl]
    simp only [PodTokenInstruction.decode, bind_eq_ok, decodeInstructionData_eq_ok, pure_eq_ok]
    exact ⟨(n, decimals), rfl, rfl⟩
  | initializeMint decimals k o | initializeMint2 decimals k o =>
    rw [TokenInstruction.pack, decodePod_cons rfl]
    simp only [PodTokenInstruction.decode, bind_eq_ok, Prod.exists, decodeWithCOption_eq_ok,
      pure_eq_ok]
    exact ⟨decimals, k, o, ⟨[], by rw [List.append_nil]; rfl⟩, rfl⟩
  | setAuthority t o =>
    rw [TokenInstruction.pack, decodePod_cons rfl]
    simp only [PodTokenInstruction.decode, bind_eq_ok, Prod.exists, decodeWithCOption_eq_ok,
      authorityFrom_eq_ok, pure_eq_ok]
    exact ⟨authorityByte t, o, ⟨[], by rw [List.append_nil]; rfl⟩, t, rfl, rfl⟩
  | initializeMintCloseAuthority o =>
    rw [TokenInstruction.pack, decodePod_cons rfl]
    simp only [PodTokenInstruction.decode, bind_eq_ok, Prod.exists, decodeWithCOption_eq_ok,
      pure_eq_ok]
    exact ⟨(), o, ⟨[], by rw [List.append_nil]; rfl⟩, rfl⟩
  | getAccountDataSize ts | reallocate ts =>
    rw [TokenInstruction.pack, decodePod_cons rfl]
    simp only [PodTokenInstruction.decode, bind_eq_ok, decodeExtensionTypes_eq_ok, pure_eq_ok]
    exact ⟨ts, rfl, rfl⟩
  | uiAmountToAmount s =>
    rw [TokenInstruction.pack, decodePod_cons rfl]
    simp only [PodTokenInstruction.decode, slice_tail, ok_bind, fromUtf8_bytes, okOr]
    rfl
  | _ => rfl

theorem decodePod_sound {b : Bytes} {i : TokenInstruction} (h : decodePod b = .ok i) :
    ∃ y, b = i.pack ++ y ∧ (i.takesRest = true → y = []) := by
  cases b with
  | nil => cases h
  | cons x rest =>
    rw [decodePod, decodeInstructionType, bind_eq_ok] at h
    obtain ⟨t, ht, h⟩ := h
    obtain rfl := PodTokenInstruction.tryFrom_eq_some (okOr_eq_ok.mp ht)
    exact PodTokenInstruction.decode_sound h

/-- What `decodePod` accepts, `unpack` reads the same. -/
theorem unpack_of_decodePod {b : Bytes} {i : TokenInstruction} (h : decodePod b = .ok i) :
    TokenInstruction.unpack b = .ok i := by
  obtain ⟨y, rfl, hy⟩ := decodePod_sound h
  exact i.unpack_pack_append hy

end Pod

/-! ### No panics -/

section Panics

variable {α : Type} (c : PacketCodec UInt8 α)

theorem unpackFront_avoids (input : Bytes) : Avoids Fault.panic (unpackFront c input) := by
  refine .bind (.okOr (by decide)) fun v hv => ?_
  obtain ⟨y, rfl⟩ := (getFront_eq_some c).mp (okOr_eq_ok.mp hv)
  refine .bind (.of_eq_ok (slice_back ?_)) fun rest _ => .pure _
  rw [List.length_append, c.length_write]
  omega

theorem unpackPubkeyOption_avoids (input : Bytes) : Avoids Fault.panic (unpackPubkeyOption input) := by
  unfold unpackPubkeyOption
  split
  case h_1 => exact .ok _
  case h_2 => exact .bind (unpackFront_avoids pubkey _) fun _ _ => .pure _
  case h_3 => exact .error (by decide)

theorem splitFirst_avoids (input : Bytes) :
    Avoids Fault.panic (okOr (splitFirst input) (TokenError.invalidInstruction : Fault)) :=
  .okOr (by decide)

theorem unpackAmountDecimals_avoids (input : Bytes) :
    Avoids Fault.panic (unpackAmountDecimals input) :=
  .bind (unpackFront_avoids amount input) fun _ _ => .bind (splitFirst_avoids _) fun _ _ => .pure _

theorem authorityFrom_avoids (x : UInt8) : Avoids Fault.panic (authorityFrom x) := by
  unfold authorityFrom
  split <;> first | exact .ok _ | exact .error (by decide)

theorem extensionTypeTryFrom_avoids (b : Bytes) : Avoids Fault.panic (extensionTypeTryFrom b) :=
  .bind (.okOr (by decide)) fun n _ => tryFromU16_ne_panic n

theorem mapM_avoids {β : Type} {f : Bytes → Except Fault β} (hf : ∀ b, Avoids Fault.panic (f b))
    (bs : List Bytes) : Avoids Fault.panic (bs.mapM f) := by
  induction bs with
  | nil => exact .pure []
  | cons b bs ih =>
    rw [List.mapM_cons]
    exact .bind (hf b) fun _ _ => .bind ih fun _ _ => .pure _

namespace TokenInstruction

theorem unpackExtensionTypes_avoids (rest : Bytes) :
    Avoids Fault.panic (unpackExtensionTypes rest) :=
  .loop (fun _ chunk => .bind (extensionTypeTryFrom_avoids chunk) fun _ _ => .pure _) _ _

theorem unpackFields_avoids (tag : ℕ) (rest : Bytes) :
    Avoids Fault.panic (unpackFields tag rest) := by
  unfold unpackFields
  split
  case h_1 | h_21 =>
    exact .bind (splitFirst_avoids _) fun _ _ => .bind (unpackFront_avoids pubkey _) fun _ _ =>
      .bind (unpackPubkeyOption_avoids _) fun _ _ => .pure _
  case h_3 | h_20 => exact .bind (splitFirst_avoids _) fun _ _ => .pure _
  case h_4 | h_5 | h_8 | h_9 | h_25 => exact .bind (.okOr (by decide)) fun _ _ => .pure _
  case h_7 =>
    exact .bind (splitFirst_avoids _) fun _ _ => .bind (authorityFrom_avoids _) fun _ _ =>
      .bind (unpackPubkeyOption_avoids _) fun _ _ => .pure _
  case h_13 | h_14 | h_15 | h_16 =>
    exact .bind (unpackAmountDecimals_avoids _) fun _ _ => .pure _
  case h_17 | h_19 | h_36 => exact .bind (unpackFront_avoids pubkey _) fun _ _ => .pure _
  case h_22 | h_30 => exact .bind (unpackExtensionTypes_avoids _) fun _ _ => .pure _
  case h_24 => exact .bind (unpackFront_avoids amount _) fun _ _ => .pure _
  case h_26 => exact .bind (unpackPubkeyOption_avoids _) fun _ _ => .pure _
  case h_43 => exact .error (by decide)
  all_goals exact .pure _

theorem unpack_avoids (b : Bytes) : Avoids Fault.panic (unpack b) :=
  .bind (splitFirst_avoids b) fun _ _ => unpackFields_avoids _ _

end TokenInstruction

namespace TransferFeeInstruction

theorem unpackFields_avoids (tag : ℕ) (rest : Bytes) :
    Avoids Fault.panic (unpackFields tag rest) := by
  unfold unpackFields
  split
  case h_1 =>
    exact .bind (unpackPubkeyOption_avoids _) fun _ _ =>
      .bind (unpackPubkeyOption_avoids _) fun _ _ =>
      .bind (unpackFront_avoids basisPoints _) fun _ _ =>
      .bind (unpackFront_avoids amount _) fun _ _ => .pure _
  case h_2 =>
    exact .bind (unpackAmountDecimals_avoids _) fun _ _ =>
      .bind (unpackFront_avoids amount _) fun _ _ => .pure _
  case h_4 => exact .bind (splitFirst_avoids _) fun _ _ => .pure _
  case h_6 =>
    exact .bind (unpackFront_avoids basisPoints _) fun _ _ =>
      .bind (unpackFront_avoids amount _) fun _ _ => .pure _
  case h_7 => exact .error (by decide)
  all_goals exact .pure _

theorem unpack_avoids (b : Bytes) : Avoids Fault.panic (unpack b) :=
  .bind (splitFirst_avoids b) fun _ _ => unpackFields_avoids _ _

end TransferFeeInstruction

theorem podFromBytes_avoids (b : Bytes) : Avoids Fault.panic (podFromBytes c b) :=
  .bind (.ensure (by decide)) fun _ _ => .pure _

theorem podUnpackPubkeyOption_avoids (b : Bytes) :
    Avoids Fault.panic (podUnpackPubkeyOption b) := by
  unfold podUnpackPubkeyOption
  split
  case h_1 => exact .ok _
  case h_2 => exact .bind (.okOr (by decide)) fun _ _ => .pure _
  case h_3 => exact .error (by decide)

section Tagged

variable (x : UInt8) (rest : Bytes)

theorem decodeInstructionData_avoids :
    Avoids Fault.panic (decodeInstructionData c (x :: rest)) := by
  refine .ite (fun _ => .error (by decide)) fun _ => ?_
  exact .bind (.of_eq_ok (slice_tail x rest)) fun _ _ => podFromBytes_avoids c _

theorem decodeWithCOption_avoids :
    Avoids Fault.panic (decodeInstructionDataWithCOptionPubkey c (x :: rest)) := by
  refine .bind (.okOr (by decide)) fun data hdata => ?_
  refine .bind (podFromBytes_avoids c data) fun v _ => ?_
  -- The fields were in range, so the key's bytes begin in range.
  have hend : c.width + 1 ≤ (x :: rest).length := by
    rw [okOr_eq_ok, Buffer.slice] at hdata
    split at hdata
    case isTrue h => exact h.2
    case isFalse => cases hdata
  refine .bind (.of_eq_ok (slice_back hend)) fun _ _ => ?_
  exact .bind (podUnpackPubkeyOption_avoids _) fun _ _ => .pure _

theorem decodeExtensionTypes_avoids : Avoids Fault.panic (decodeExtensionTypes (x :: rest)) :=
  .bind (.of_eq_ok (slice_tail x rest)) fun _ _ => mapM_avoids extensionTypeTryFrom_avoids _

theorem PodTokenInstruction.decode_avoids (t : PodTokenInstruction) :
    Avoids Fault.panic (t.decode (x :: rest)) := by
  cases t with
  | transfer | approve | mintTo | burn | amountToUiAmount | initializeAccount2 | initializeAccount3
    | initializeMultisig | initializeMultisig2 | initializePermanentDelegate | transferChecked
    | approveChecked | mintToChecked | burnChecked =>
    exact .bind (decodeInstructionData_avoids _ x rest) fun _ _ => .pure _
  | initializeMint | initializeMint2 | initializeMintCloseAuthority =>
    exact .bind (decodeWithCOption_avoids _ x rest) fun _ _ => .pure _
  | setAuthority =>
    exact .bind (decodeWithCOption_avoids _ x rest) fun _ _ =>
      .bind (authorityFrom_avoids _) fun _ _ => .pure _
  | getAccountDataSize | reallocate =>
    exact .bind (decodeExtensionTypes_avoids x rest) fun _ _ => .pure _
  | uiAmountToAmount =>
    exact .bind (.of_eq_ok (slice_tail x rest)) fun _ _ =>
      .bind (.okOr (by decide)) fun _ _ => .pure _
  | _ => exact .pure _

end Tagged

theorem decodePod_avoids (b : Bytes) : Avoids Fault.panic (decodePod b) := by
  cases b with
  | nil => exact .error (by decide)
  | cons x rest =>
    exact .bind (.okOr (by decide)) fun t _ => t.decode_avoids x rest

end Panics

/-- Both decoders undo `pack`, neither panics on any bytes, and where the decoder of
`Processor::process` accepts the fields, `unpack` takes the same values. -/
theorem instruction_codec :
    (∀ i : TokenInstruction, TokenInstruction.unpack i.pack = .ok i) ∧
    (∀ i : TransferFeeInstruction, ∀ buffer : Bytes,
      TransferFeeInstruction.unpack ((i.pack buffer).drop buffer.length) = .ok i) ∧
    (∀ i : TokenInstruction, decodePod i.pack = .ok i) ∧
    (∀ b : Bytes, TokenInstruction.unpack b ≠ .error Fault.panic ∧
      TransferFeeInstruction.unpack b ≠ .error Fault.panic ∧
      decodePod b ≠ .error Fault.panic) ∧
    ∀ (b : Bytes) (i : TokenInstruction), decodePod b = .ok i → TokenInstruction.unpack b = .ok i := by
  refine ⟨fun i => ?_, fun i buffer => ?_, decodePod_pack, fun b => ?_, fun b i => unpack_of_decodePod⟩
  · have hpack := i.unpack_pack_append (y := []) fun _ => rfl
    rwa [List.append_nil] at hpack
  · rw [TransferFeeInstruction.pack, List.drop_left]
    exact i.unpack_bytes
  · exact ⟨TokenInstruction.unpack_avoids b, TransferFeeInstruction.unpack_avoids b,
      decodePod_avoids b⟩

/-- A transfer of 258 tokens, and nine decimals to check. -/
theorem instruction_codec_transferChecked :
    TokenInstruction.unpack [12, 2, 1, 0, 0, 0, 0, 0, 0, 9] = .ok (.transferChecked 258 9) :=
  instruction_codec.2.2.2.2 [12, 2, 1, 0, 0, 0, 0, 0, 0, 9] (.transferChecked 258 9) rfl

end Wire
end BarkToken
