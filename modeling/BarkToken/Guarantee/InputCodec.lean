import BarkToken.Guarantee.InstructionCodec
import BarkToken.Wire.Entrypoint

/-!
# The wire format of all instructions

What the client functions write, `Processor::process` decodes to the handler and the
arguments it was written for, also with any other byte but zero in the place of a
`PodBool` that is true. It accepts nothing else, but for the interfaces' instructions and
for bytes behind an instruction that nothing reads.
-/

namespace BarkToken
namespace Wire
open Fallible Bytes

variable {α : Type} {y : Bytes}

/-! ### Fields read from the front -/

theorem unpackFront_eq_ok {c : PacketCodec UInt8 α} {b : Bytes} {v : α} :
    unpackFront c b = .ok (v, y) ↔ b = c.write v ++ y := by
  constructor
  · intro h
    rw [unpackFront, bind_eq_ok] at h
    obtain ⟨w, hw, h⟩ := h
    obtain ⟨z, rfl⟩ := (getFront_eq_some c).mp (okOr_eq_ok.mp hw)
    have hlen : c.width ≤ (c.write w ++ z).length := by
      rw [List.length_append, c.length_write]
      omega
    rw [slice_back hlen, ok_bind, c.drop_front, pure_eq_ok, Prod.mk.injEq] at h
    rw [h.1, h.2]
  · rintro rfl
    exact unpackFront_write c v y

theorem splitFirst_eq_ok {b : Bytes} {v : UInt8} {e : Fault} :
    okOr (splitFirst b) e = .ok (v, y) ↔ b = v :: y := by
  rw [okOr_eq_ok]
  cases b with
  | nil => simp [splitFirst]
  | cons z zs => simp [splitFirst]

theorem unpackPubkeyOption_eq_ok {b : Bytes} {o : Option Pubkey} :
    unpackPubkeyOption b = .ok (o, y) ↔ b = packPubkeyOption o ++ y := by
  constructor
  · intro h
    unfold unpackPubkeyOption at h
    split at h
    case h_1 z =>
      obtain ⟨rfl, rfl⟩ := Prod.mk.inj (Except.ok.inj h)
      rfl
    case h_2 z =>
      rw [bind_eq_ok] at h
      obtain ⟨⟨k, w⟩, hk, h⟩ := h
      obtain ⟨rfl, rfl⟩ := Prod.mk.inj (pure_eq_ok.mp h)
      rw [unpackFront_eq_ok.mp hk]
      rfl
    case h_3 => cases h
  · rintro rfl
    exact unpackPubkeyOption_pack o y

theorem unpackAmountDecimals_eq_ok {b : Bytes} {n : UInt64} {d : UInt8} :
    unpackAmountDecimals b = .ok (n, d, y) ↔ b = u64Bytes n ++ d :: y := by
  simp only [unpackAmountDecimals, unpackU64, bind_eq_ok, Prod.exists, unpackFront_eq_ok,
    splitFirst_eq_ok, pure_eq_ok, Prod.mk.injEq]
  constructor
  · rintro ⟨m, z, rfl, e, w, rfl, rfl, rfl, rfl⟩
    rfl
  · rintro rfl
    exact ⟨n, d :: y, rfl, d, y, rfl, rfl, rfl, rfl⟩

/-- What the transfer-fee decoder accepts is what `pack` writes, and more behind it. -/
theorem TransferFeeInstruction.unpack_sound {b : Bytes} {i : TransferFeeInstruction}
    (h : unpack b = .ok i) : ∃ y, b = i.bytes ++ y := by
  simp only [unpack, bind_eq_ok, Prod.exists, splitFirst_eq_ok] at h
  obtain ⟨tag, front, rfl, h⟩ := h
  have htag (n : ℕ) (hn : n < 256) (heq : tag.toNat = n) : tag = UInt8.ofNat n := by
    rw [← heq, UInt8.ofNat_toNat]
  unfold unpackFields at h
  split at h
  case h_1 heq =>
    simp only [unpackU16, unpackU64, bind_eq_ok, Prod.exists, unpackPubkeyOption_eq_ok,
      unpackFront_eq_ok, pure_eq_ok] at h
    obtain ⟨a, _, rfl, o, _, rfl, n, _, rfl, m, z, rfl, rfl⟩ := h
    refine ⟨z, ?_⟩
    rw [htag 0 (by omega) heq]
    simp only [bytes, List.cons_append, List.append_assoc]
    rfl
  case h_2 heq =>
    simp only [unpackU64, bind_eq_ok, Prod.exists, unpackAmountDecimals_eq_ok, unpackFront_eq_ok,
      pure_eq_ok] at h
    obtain ⟨n, d, _, rfl, fee, z, rfl, rfl⟩ := h
    refine ⟨z, ?_⟩
    rw [htag 1 (by omega) heq]
    simp only [bytes, List.cons_append, List.append_assoc]
    rfl
  case h_3 heq =>
    obtain rfl := pure_eq_ok.mp h
    exact ⟨_, by rw [htag 2 (by omega) heq]; rfl⟩
  case h_4 heq =>
    simp only [bind_eq_ok, Prod.exists, splitFirst_eq_ok, pure_eq_ok] at h
    obtain ⟨n, z, rfl, rfl⟩ := h
    exact ⟨z, by rw [htag 3 (by omega) heq]; rfl⟩
  case h_5 heq =>
    obtain rfl := pure_eq_ok.mp h
    exact ⟨_, by rw [htag 4 (by omega) heq]; rfl⟩
  case h_6 heq =>
    simp only [unpackU16, unpackU64, bind_eq_ok, Prod.exists, unpackFront_eq_ok, pure_eq_ok] at h
    obtain ⟨n, _, rfl, m, z, rfl, rfl⟩ := h
    refine ⟨z, ?_⟩
    rw [htag 5 (by omega) heq]
    simp only [bytes, List.cons_append, List.append_assoc]
    rfl
  case h_7 => cases h

/-! ### Extension instructions -/

section Types

variable {T : Type} [DecidableEq T] [Discriminant T]

theorem decodeExtensionType_into (t : T) (y : Bytes) :
    decodeExtensionType T (Discriminant.into t :: y) = .ok t := by
  rw [decodeExtensionType, Discriminant.tryFrom_into, okOr]

theorem decodeExtensionType_eq_ok {b : Bytes} {t : T} :
    decodeExtensionType T b = .ok t ↔ ∃ y, b = Discriminant.into t :: y := by
  constructor
  · intro h
    cases b with
    | nil => cases h
    | cons z zs =>
      rw [decodeExtensionType, okOr_eq_ok, Discriminant.tryFrom_eq_some] at h
      exact ⟨zs, by rw [h]⟩
  · rintro ⟨y, rfl⟩
    exact decodeExtensionType_into t y

end Types

theorem decodeInstructionData_write (c : PacketCodec UInt8 α) (x : UInt8) (v : α) :
    decodeInstructionData c (x :: c.write v) = .ok v :=
  (decodeInstructionData_eq_ok c).mpr rfl

theorem podBool_boolByte {x : UInt8} (hx : x ≠ 0) (b : Bool) : podBool (boolByte x b) = b := by
  cases b with
  | false => rfl
  | true => exact decide_eq_true hx

/-- Every byte is a `PodBool`. -/
theorem exists_boolByte (z : UInt8) : ∃ x, x ≠ 0 ∧ z = boolByte x (podBool z) := by
  by_cases hz : z = 0
  · subst hz
    exact ⟨1, by decide, rfl⟩
  · refine ⟨z, hz, ?_⟩
    have htrue : podBool z = true := decide_eq_true hz
    rw [htrue, boolByte, if_pos rfl]

/-- A list of types none of which is `Uninitialized`. -/
theorem mapM_id_eq_some {ts : List (Option ExtensionType)} {us : List ExtensionType} :
    ts.mapM id = some us ↔ ts = us.map some := by
  induction ts generalizing us with
  | nil => cases us <;> simp
  | cons t ts ih =>
    rw [List.mapM_cons, Option.bind_eq_bind, Option.bind_eq_some_iff]
    constructor
    · rintro ⟨u, rfl, h⟩
      rw [Option.bind_eq_bind, Option.bind_eq_some_iff] at h
      obtain ⟨vs, hvs, h⟩ := h
      rw [← Option.some.inj h, ih.mp hvs, List.map_cons]
    · intro h
      cases us with
      | nil => cases h
      | cons u us =>
        obtain ⟨rfl, hts⟩ := List.cons.inj h
        exact ⟨u, rfl, by rw [ih.mpr hts]; rfl⟩

/-- The other lists of types. -/
theorem mapM_id_eq_none {ts : List (Option ExtensionType)} : ts.mapM id = none ↔ none ∈ ts := by
  induction ts with
  | nil => simp
  | cons t ts ih =>
    rw [List.mapM_cons, Option.bind_eq_bind, Option.bind_eq_none_iff, List.mem_cons, ← ih]
    cases t with
    | none => simp
    | some u => simp [Option.bind_eq_none_iff, ← Option.eq_none_iff_forall_ne_some]

/-- The instructions with a tag of their own behind it. -/
def extensions : List TokenInstruction :=
  [.transferFeeExtension, .confidentialTransferExtension, .defaultAccountStateExtension,
   .memoTransferExtension, .interestBearingMintExtension, .cpiGuardExtension,
   .transferHookExtension, .confidentialTransferFeeExtension, .metadataPointerExtension,
   .groupPointerExtension, .groupMemberPointerExtension]

section Input

variable (interfaces : InterfaceDecoders)

theorem decodeInput_of_decodePod {x : UInt8} {i : TokenInstruction}
    (h : decodePod (x :: y) = .ok i) : decodeInput interfaces (x :: y) = i.request y := by
  rw [decodePod, bind_eq_ok] at h
  obtain ⟨t, ht, h⟩ := h
  simp only [decodeInput, ht, h, slice_tail, ok_bind]

/-- A base instruction is read from its own bytes. -/
theorem decodeInput_pack (i : TokenInstruction) :
    decodeInput interfaces i.pack = i.request i.pack.tail := by
  have h := decodePod_pack i
  cases hpack : i.pack with
  | nil =>
    rw [hpack] at h
    cases h
  | cons x y =>
    rw [hpack] at h
    exact decodeInput_of_decodePod interfaces h

/-- An extension's instruction is read from what is behind the tag. -/
theorem decodeInput_extension {i : TokenInstruction} (hi : i ∈ extensions) (y : Bytes) :
    decodeInput interfaces (i.pack ++ y) = i.request y := by
  simp only [extensions, List.mem_cons, List.not_mem_nil, or_false] at hi
  rcases hi with rfl | rfl | rfl | rfl | rfl | rfl | rfl | rfl | rfl | rfl | rfl <;>
    exact decodeInput_of_decodePod interfaces rfl

/-- An instruction is decoded from what the client functions write for it. -/
theorem decodeInput_encodeWith {p q : UInt8} (hp : p ≠ 0) (hq : q ≠ 0)
    {ix : BarkToken.TokenInstruction} {w : Bytes} (h : encodeWith p q ix = some w) :
    decodeInput interfaces w = .ok (.instruction ix) := by
  have hbase (i : TokenInstruction) (hi : i.request i.pack.tail = .ok (.instruction ix))
      (hw : i.pack = w) : decodeInput interfaces w = .ok (.instruction ix) := by
    rw [← hw, decodeInput_pack, hi]
  have hextension (i : TokenInstruction) (hi : i ∈ extensions) (y : Bytes)
      (hy : i.request y = .ok (.instruction ix)) (hw : i.pack ++ y = w) :
      decodeInput interfaces w = .ok (.instruction ix) := by
    rw [← hw, decodeInput_extension interfaces hi, hy]
  have hfee (i : TransferFeeInstruction) (hi : decodeTransferFee i.bytes = .ok ix)
      (hw : i.encodeInstructionData = w) : decodeInput interfaces w = .ok (.instruction ix) := by
    refine hextension .transferFeeExtension (by simp [extensions]) i.bytes ?_ hw
    rw [TokenInstruction.request, hi]
    rfl
  have hconfidential (t : ConfidentialTransferInstruction) (data : Bytes)
      (hi : decodeConfidentialTransfer (Discriminant.into t :: data) = .ok ix)
      (hw : encodeConfidentialTransfer t data = w) :
      decodeInput interfaces w = .ok (.instruction ix) := by
    refine hextension .confidentialTransferExtension (by simp [extensions]) _ ?_ hw
    rw [TokenInstruction.request, hi]
    rfl
  have hconfidentialFee (t : ConfidentialTransferFeeInstruction) (data : Bytes)
      (hi : decodeConfidentialTransferFee (Discriminant.into t :: data) = .ok ix)
      (hw : encodeConfidentialTransferFee t data = w) :
      decodeInput interfaces w = .ok (.instruction ix) := by
    refine hextension .confidentialTransferFeeExtension (by simp [extensions]) _ ?_ hw
    rw [TokenInstruction.request, hi]
    rfl
  cases ix with
  | initializeMint decimals mintAuthority freezeAuthority rent =>
    cases rent with
    | true => exact hbase (.initializeMint decimals mintAuthority freezeAuthority) rfl (Option.some.inj h)
    | false => exact hbase (.initializeMint2 decimals mintAuthority freezeAuthority) rfl (Option.some.inj h)
  | initializeMultisig m rent =>
    cases rent with
    | true => exact hbase (.initializeMultisig m) rfl (Option.some.inj h)
    | false => exact hbase (.initializeMultisig2 m) rfl (Option.some.inj h)
  | approve n decimals =>
    cases decimals with
    | none => exact hbase (.approve n) rfl (Option.some.inj h)
    | some d => exact hbase (.approveChecked n d) rfl (Option.some.inj h)
  | mintTo n decimals =>
    cases decimals with
    | none => exact hbase (.mintTo n) rfl (Option.some.inj h)
    | some d => exact hbase (.mintToChecked n d) rfl (Option.some.inj h)
  | burn n decimals =>
    cases decimals with
    | none => exact hbase (.burn n) rfl (Option.some.inj h)
    | some d => exact hbase (.burnChecked n d) rfl (Option.some.inj h)
  | toggleFreezeAccount freeze =>
    cases freeze with
    | true => exact hbase .freezeAccount rfl (Option.some.inj h)
    | false => exact hbase .thawAccount rfl (Option.some.inj h)
  | initializeAccount | initializeAccount2 | initializeAccount3 | transfer | transferChecked | revoke
    | setAuthority | closeAccount | syncNative | initializeMintCloseAuthority
    | initializeImmutableOwner | createNativeMint | initializeNonTransferableMint
    | initializePermanentDelegate | withdrawExcessLamports =>
    refine hbase _ ?_ (Option.some.inj h)
    rfl
  | getAccountDataSize types =>
    refine hbase (.getAccountDataSize (types.map some)) ?_ (Option.some.inj h)
    simp only [TokenInstruction.request, mapM_id_eq_some.mpr rfl]
    rfl
  | reallocate types =>
    refine hbase (.reallocate (types.map some)) ?_ (Option.some.inj h)
    simp only [TokenInstruction.request, mapM_id_eq_some.mpr rfl]
    rfl
  | transferCheckedWithFee | initializeTransferFeeConfig | setTransferFee
    | withdrawWithheldTokensFromMint | withdrawWithheldTokensFromAccounts
    | harvestWithheldTokensToMint =>
    refine hfee _ ?_ (Option.some.inj h)
    rw [decodeTransferFee, TransferFeeInstruction.unpack_bytes]
    rfl
  | initializeDefaultAccountState | updateDefaultAccountState =>
    refine hextension .defaultAccountStateExtension (by simp [extensions]) _ ?_ (Option.some.inj h)
    simp only [TokenInstruction.request, decodeDefaultAccountState, Discriminant.tryFrom_into, okOr,
      ok_bind]
    rfl
  | toggleRequiredMemoTransfers enable | toggleCpiGuard enable =>
    refine hextension _ (by simp [extensions]) _ ?_ (Option.some.inj h)
    cases enable <;> rfl
  | initializeInterestBearingMint | updateRate | initializeTransferHook | updateTransferHook
    | initializeMetadataPointer | updateMetadataPointer | initializeGroupPointer | updateGroupPointer
    | initializeGroupMemberPointer | updateGroupMemberPointer =>
    refine hextension _ (by simp [extensions]) _ ?_ (Option.some.inj h)
    simp only [TokenInstruction.request, decodeInterestBearingMint, decodeTransferHook,
      decodeMetadataPointer, decodeGroupPointer, decodeGroupMemberPointer, decodeConfig,
      decodeExtensionType_into, decodeInstructionData_write, ok_bind]
    rfl
  | allowConfidentialCredits allow =>
    cases allow with
    | true => exact hconfidential .enableConfidentialCredits [] rfl (Option.some.inj h)
    | false => exact hconfidential .disableConfidentialCredits [] rfl (Option.some.inj h)
  | allowNonConfidentialCredits allow =>
    cases allow with
    | true => exact hconfidential .enableNonConfidentialCredits [] rfl (Option.some.inj h)
    | false => exact hconfidential .disableNonConfidentialCredits [] rfl (Option.some.inj h)
  | approveAccount => exact hconfidential .approveAccount [] rfl (Option.some.inj h)
  | initializeConfidentialTransferMint | updateConfidentialTransferMint | configureAccount
    | emptyAccount | deposit | withdraw | confidentialTransfer | confidentialTransferWithSplitProofs
    | applyPendingBalance =>
    refine hconfidential _ _ ?_ (Option.some.inj h)
    simp only [decodeConfidentialTransfer, decodeExtensionType_into, decodeInstructionData_write,
      ok_bind, podBool_boolByte hp, podBool_boolByte hq]
    rfl
  | toggleHarvestToMint enable =>
    cases enable with
    | true => exact hconfidentialFee .enableHarvestToMint [] rfl (Option.some.inj h)
    | false => exact hconfidentialFee .disableHarvestToMint [] rfl (Option.some.inj h)
  | confidentialHarvestToMint =>
    exact hconfidentialFee .harvestWithheldTokensToMint [] rfl (Option.some.inj h)
  | initializeConfidentialTransferFeeConfig | confidentialWithdrawFromMint
    | confidentialWithdrawFromAccounts =>
    refine hconfidentialFee _ _ ?_ (Option.some.inj h)
    simp only [decodeConfidentialTransferFee, decodeExtensionType_into, decodeInstructionData_write,
      ok_bind]
    rfl
  | initializeMetadata | updateField | removeKey | updateMetadataAuthority | initializeGroup
    | updateGroupMaxSize | updateGroupAuthority | initializeMember => cases h

/-- What the client functions write is decoded to what it was written for. -/
theorem decodeInput_request {p q : UInt8} (hp : p ≠ 0) (hq : q ≠ 0) {r : Request} {w : Bytes}
    (h : r.encodeWith p q = some w) : decodeInput interfaces w = .ok r := by
  cases r with
  | instruction ix => exact decodeInput_encodeWith interfaces hp hq h
  | getAccountDataSizeUninitialized types | reallocateUninitialized types =>
    rw [Request.encodeWith, Option.ite_none_right_eq_some] at h
    rw [← Option.some.inj h.2, decodeInput_pack]
    simp only [TokenInstruction.request, mapM_id_eq_none.mpr h.1]
    rfl
  | amountToUiAmount | uiAmountToAmount =>
    rw [← Option.some.inj h, decodeInput_pack]
    rfl
  | emit => cases h

end Input

/-! ### What is accepted -/

/-- The bytes of a request, with more behind them; what is true may be any byte but zero. -/
def Written (r : Request) (b : Bytes) : Prop :=
  ∃ p q w y, p ≠ 0 ∧ q ≠ 0 ∧ r.encodeWith p q = some w ∧ b = w ++ y

section Sound

variable {b : Bytes} {ix : BarkToken.TokenInstruction} {r : Request}

theorem Written.of_encode {w : Bytes} (y : Bytes) (h : r.encode = some w) : Written r (w ++ y) :=
  ⟨1, 1, w, y, by decide, by decide, h, rfl⟩

theorem Written.of_encode_nil {w : Bytes} (h : r.encode = some w) : Written r w := by
  have hw := Written.of_encode [] h
  rwa [List.append_nil] at hw

theorem Written.of_encode_tag {w : Bytes} {x : UInt8} (y : Bytes)
    (h : r.encode = some (w ++ [x])) : Written r (w ++ x :: y) := by
  have hw := Written.of_encode y h
  rwa [List.append_assoc, List.singleton_append] at hw

theorem decodeTransferFee_sound (h : decodeTransferFee b = .ok ix) :
    Written (.instruction ix) (TokenInstruction.transferFeeExtension.pack ++ b) := by
  rw [decodeTransferFee, bind_eq_ok] at h
  obtain ⟨i, hi, h⟩ := h
  obtain ⟨y, rfl⟩ := TransferFeeInstruction.unpack_sound hi
  rw [← List.append_assoc]
  cases i with
  | _ =>
    obtain rfl := pure_eq_ok.mp h
    exact .of_encode y rfl

theorem decodeConfidentialTransfer_sound (h : decodeConfidentialTransfer b = .ok ix) :
    Written (.instruction ix) (TokenInstruction.confidentialTransferExtension.pack ++ b) := by
  simp only [decodeConfidentialTransfer, bind_eq_ok, decodeExtensionType_eq_ok] at h
  obtain ⟨t, ⟨y, rfl⟩, h⟩ := h
  cases t with
  | initializeMint =>
    simp only [bind_eq_ok, Prod.exists, decodeInstructionData_eq_ok, pure_eq_ok] at h
    obtain ⟨authority, z, auditor, rfl, rfl⟩ := h
    obtain ⟨p, hp, hz⟩ := exists_boolByte z
    refine ⟨p, 1, _, [], hp, by decide, rfl, ?_⟩
    rw [List.append_nil, ← hz]
    rfl
  | updateMint =>
    simp only [bind_eq_ok, Prod.exists, decodeInstructionData_eq_ok, pure_eq_ok] at h
    obtain ⟨z, auditor, rfl, rfl⟩ := h
    obtain ⟨p, hp, hz⟩ := exists_boolByte z
    refine ⟨p, 1, _, [], hp, by decide, rfl, ?_⟩
    rw [List.append_nil, ← hz]
    rfl
  | transferWithSplitProofs =>
    simp only [bind_eq_ok, Prod.exists, decodeInstructionData_eq_ok, pure_eq_ok] at h
    obtain ⟨balance, z, z', handles, rfl, rfl⟩ := h
    obtain ⟨p, hp, hz⟩ := exists_boolByte z
    obtain ⟨q, hq, hz'⟩ := exists_boolByte z'
    refine ⟨p, q, _, [], hp, hq, rfl, ?_⟩
    rw [List.append_nil, ← hz, ← hz']
    rfl
  | configureAccount | emptyAccount | deposit | withdraw | transfer | applyPendingBalance =>
    simp only [bind_eq_ok, decodeInstructionData_eq_ok] at h
    obtain ⟨v, rfl, h⟩ := h
    obtain rfl := pure_eq_ok.mp h
    exact .of_encode_nil rfl
  | approveAccount | enableConfidentialCredits | disableConfidentialCredits
    | enableNonConfidentialCredits | disableNonConfidentialCredits =>
    obtain rfl := pure_eq_ok.mp h
    exact .of_encode_tag y rfl

theorem decodeConfidentialTransferFee_sound (h : decodeConfidentialTransferFee b = .ok ix) :
    Written (.instruction ix) (TokenInstruction.confidentialTransferFeeExtension.pack ++ b) := by
  simp only [decodeConfidentialTransferFee, bind_eq_ok, decodeExtensionType_eq_ok] at h
  obtain ⟨t, ⟨y, rfl⟩, h⟩ := h
  cases t with
  | initializeConfidentialTransferFeeConfig | withdrawWithheldTokensFromMint
    | withdrawWithheldTokensFromAccounts =>
    simp only [bind_eq_ok, decodeInstructionData_eq_ok] at h
    obtain ⟨v, rfl, h⟩ := h
    obtain rfl := pure_eq_ok.mp h
    exact .of_encode_nil rfl
  | harvestWithheldTokensToMint | enableHarvestToMint | disableHarvestToMint =>
    obtain rfl := pure_eq_ok.mp h
    exact .of_encode_tag y rfl

theorem decodeDefaultAccountState_sound (h : decodeDefaultAccountState b = .ok ix) :
    Written (.instruction ix) (TokenInstruction.defaultAccountStateExtension.pack ++ b) := by
  unfold decodeDefaultAccountState at h
  split at h
  case h_1 x y =>
    simp only [bind_eq_ok, okOr_eq_ok, Discriminant.tryFrom_eq_some] at h
    obtain ⟨t, rfl, state, rfl, h⟩ := h
    cases t with
    | init | update =>
      obtain rfl := pure_eq_ok.mp h
      exact .of_encode_nil rfl
  case h_2 => cases h

theorem decodeToggle_sound {i : TokenInstruction} {toggle : Bool → BarkToken.TokenInstruction}
    (hi : ∀ enable, encode (toggle enable) = some (encodeToggle i enable))
    (h : decodeToggle toggle b = .ok ix) : Written (.instruction ix) (i.pack ++ b) := by
  simp only [decodeToggle, bind_eq_ok, decodeExtensionType_eq_ok] at h
  obtain ⟨t, ⟨y, rfl⟩, h⟩ := h
  cases t with
  | enable =>
    obtain rfl := pure_eq_ok.mp h
    exact .of_encode_tag y (hi true)
  | disable =>
    obtain rfl := pure_eq_ok.mp h
    exact .of_encode_tag y (hi false)

theorem decodeConfig_sound {β : Type} {i : TokenInstruction} {c : PacketCodec UInt8 α}
    {d : PacketCodec UInt8 β} {init : α → BarkToken.TokenInstruction}
    {update : β → BarkToken.TokenInstruction}
    (hinit : ∀ v, encode (init v) = some (encodeInstruction i ConfigInstruction.init (c.write v)))
    (hupdate : ∀ v,
      encode (update v) = some (encodeInstruction i ConfigInstruction.update (d.write v)))
    (h : decodeConfig c d init update b = .ok ix) : Written (.instruction ix) (i.pack ++ b) := by
  simp only [decodeConfig, bind_eq_ok, decodeExtensionType_eq_ok] at h
  obtain ⟨t, ⟨y, rfl⟩, h⟩ := h
  cases t with
  | init =>
    simp only [bind_eq_ok, decodeInstructionData_eq_ok] at h
    obtain ⟨v, rfl, h⟩ := h
    obtain rfl := pure_eq_ok.mp h
    exact .of_encode_nil (hinit v)
  | update =>
    simp only [bind_eq_ok, decodeInstructionData_eq_ok] at h
    obtain ⟨v, rfl, h⟩ := h
    obtain rfl := pure_eq_ok.mp h
    exact .of_encode_nil (hupdate v)

/-- An arm of `Processor::process` that decodes further. -/
theorem request_eq_ok {x : Except Fault BarkToken.TokenInstruction}
    (h : (do return Request.instruction (← x)) = Except.ok r) :
    ∃ ix, x = .ok ix ∧ r = .instruction ix := by
  rw [bind_eq_ok] at h
  obtain ⟨i, hi, h⟩ := h
  exact ⟨i, hi, (pure_eq_ok.mp h).symm⟩

/-- What the arms accept is what the client functions write. -/
theorem TokenInstruction.request_sound {i : TokenInstruction} {y : Bytes}
    (h : i.request (i.pack.tail ++ y) = .ok r) : Written r (i.pack ++ y) := by
  cases i with
  | getAccountDataSize types | reallocate types =>
    cases htypes : types.mapM id with
    | none =>
      simp only [request, htypes] at h
      obtain rfl := pure_eq_ok.mp h
      exact .of_encode y (if_pos (mapM_id_eq_none.mp htypes))
    | some us =>
      simp only [request, htypes] at h
      obtain rfl := pure_eq_ok.mp h
      rw [mapM_id_eq_some.mp htypes]
      exact .of_encode y rfl
  | transferFeeExtension =>
    obtain ⟨ix, hix, rfl⟩ := request_eq_ok h
    exact decodeTransferFee_sound hix
  | confidentialTransferExtension =>
    obtain ⟨ix, hix, rfl⟩ := request_eq_ok h
    exact decodeConfidentialTransfer_sound hix
  | confidentialTransferFeeExtension =>
    obtain ⟨ix, hix, rfl⟩ := request_eq_ok h
    exact decodeConfidentialTransferFee_sound hix
  | defaultAccountStateExtension =>
    obtain ⟨ix, hix, rfl⟩ := request_eq_ok h
    exact decodeDefaultAccountState_sound hix
  | memoTransferExtension | cpiGuardExtension =>
    obtain ⟨ix, hix, rfl⟩ := request_eq_ok h
    exact decodeToggle_sound (fun _ => rfl) hix
  | interestBearingMintExtension | transferHookExtension | metadataPointerExtension
    | groupPointerExtension | groupMemberPointerExtension =>
    obtain ⟨ix, hix, rfl⟩ := request_eq_ok h
    exact decodeConfig_sound (fun _ => rfl) (fun _ => rfl) hix
  | _ =>
    obtain rfl := pure_eq_ok.mp h
    exact .of_encode y rfl

/-- An instruction of one of the interfaces, whose discriminator is no tag of the
program's. -/
def OfInterface (interfaces : InterfaceDecoders) (r : Request) (b : Bytes) : Prop :=
  (∃ e, decodeInstructionType b = .error e) ∧
    ((∃ i, interfaces.unpackMetadata b = some i ∧ i.request = r) ∨
      ∃ i, interfaces.unpackGroup b = some i ∧ i.request = r)

theorem decodeInput_sound {interfaces : InterfaceDecoders} (h : decodeInput interfaces b = .ok r) :
    Written r b ∨ OfInterface interfaces r b := by
  cases ht : decodeInstructionType b with
  | ok t =>
    left
    simp only [decodeInput, ht, bind_eq_ok] at h
    obtain ⟨i, hi, rest, hrest, h⟩ := h
    have hpod : decodePod b = .ok i := by rw [decodePod, ht, ok_bind, hi]
    obtain ⟨y, rfl, -⟩ := decodePod_sound hpod
    have htail : rest = i.pack.tail ++ y := by
      cases hpack : i.pack with
      | nil => cases i <;> cases hpack
      | cons z zs =>
        rw [hpack, List.cons_append, slice_tail] at hrest
        exact (Except.ok.inj hrest).symm
    rw [htail] at h
    exact i.request_sound h
  | error e =>
    right
    refine ⟨⟨e, ht⟩, ?_⟩
    cases hmetadata : interfaces.unpackMetadata b with
    | some i =>
      simp only [decodeInput, ht, hmetadata] at h
      exact .inl ⟨i, rfl, pure_eq_ok.mp h⟩
    | none =>
      cases hgroup : interfaces.unpackGroup b with
      | some i =>
        simp only [decodeInput, ht, hmetadata, hgroup] at h
        exact .inr ⟨i, rfl, pure_eq_ok.mp h⟩
      | none =>
        simp only [decodeInput, ht, hmetadata, hgroup] at h
        cases h

end Sound

/-! ### No panics -/

section Panics

variable (b : Bytes)

theorem decodeInstructionData_avoids_all (c : PacketCodec UInt8 α) :
    Avoids Fault.panic (decodeInstructionData c b) := by
  cases b with
  | nil =>
    rw [decodeInstructionData, List.length_nil, if_pos (Nat.succ_ne_zero _).symm]
    exact .error (by decide)
  | cons x rest => exact decodeInstructionData_avoids c x rest

theorem decodeExtensionType_avoids (T : Type) [DecidableEq T] [Discriminant T] :
    Avoids Fault.panic (decodeExtensionType T b) := by
  cases b with
  | nil => exact .error (by decide)
  | cons x rest => exact .okOr (by decide)

theorem decodeTransferFee_avoids : Avoids Fault.panic (decodeTransferFee b) := by
  refine .bind (TransferFeeInstruction.unpack_avoids b) fun i _ => ?_
  cases i with
  | _ => exact .pure _

theorem decodeConfidentialTransfer_avoids :
    Avoids Fault.panic (decodeConfidentialTransfer b) := by
  refine .bind (decodeExtensionType_avoids b _) fun t _ => ?_
  cases t with
  | initializeMint | updateMint | configureAccount | emptyAccount | deposit | withdraw | transfer
    | applyPendingBalance | transferWithSplitProofs =>
    exact .bind (decodeInstructionData_avoids_all b _) fun _ _ => .pure _
  | _ => exact .pure _

theorem decodeConfidentialTransferFee_avoids :
    Avoids Fault.panic (decodeConfidentialTransferFee b) := by
  refine .bind (decodeExtensionType_avoids b _) fun t _ => ?_
  cases t with
  | initializeConfidentialTransferFeeConfig | withdrawWithheldTokensFromMint
    | withdrawWithheldTokensFromAccounts =>
    exact .bind (decodeInstructionData_avoids_all b _) fun _ _ => .pure _
  | _ => exact .pure _

theorem decodeDefaultAccountState_avoids :
    Avoids Fault.panic (decodeDefaultAccountState b) := by
  unfold decodeDefaultAccountState
  split
  case h_1 x y =>
    refine .bind (.okOr (by decide)) fun t _ => .bind (.okOr (by decide)) fun state _ => ?_
    cases t with
    | _ => exact .pure _
  case h_2 => exact .error (by decide)

theorem decodeToggle_avoids (toggle : Bool → BarkToken.TokenInstruction) :
    Avoids Fault.panic (decodeToggle toggle b) := by
  refine .bind (decodeExtensionType_avoids b _) fun t _ => ?_
  cases t with
  | _ => exact .pure _

theorem decodeConfig_avoids {β : Type} (c : PacketCodec UInt8 α) (d : PacketCodec UInt8 β)
    (init : α → BarkToken.TokenInstruction) (update : β → BarkToken.TokenInstruction) :
    Avoids Fault.panic (decodeConfig c d init update b) := by
  refine .bind (decodeExtensionType_avoids b _) fun t _ => ?_
  cases t with
  | init => exact .bind (decodeInstructionData_avoids_all b c) fun _ _ => .pure _
  | update => exact .bind (decodeInstructionData_avoids_all b d) fun _ _ => .pure _

theorem TokenInstruction.request_avoids (i : TokenInstruction) :
    Avoids Fault.panic (i.request b) := by
  cases i with
  | getAccountDataSize types | reallocate types =>
    cases htypes : types.mapM id with
    | none =>
      simp only [request, htypes]
      exact .pure _
    | some us =>
      simp only [request, htypes]
      exact .pure _
  | transferFeeExtension => exact .bind (decodeTransferFee_avoids b) fun _ _ => .pure _
  | confidentialTransferExtension =>
    exact .bind (decodeConfidentialTransfer_avoids b) fun _ _ => .pure _
  | confidentialTransferFeeExtension =>
    exact .bind (decodeConfidentialTransferFee_avoids b) fun _ _ => .pure _
  | defaultAccountStateExtension =>
    exact .bind (decodeDefaultAccountState_avoids b) fun _ _ => .pure _
  | memoTransferExtension | cpiGuardExtension =>
    exact .bind (decodeToggle_avoids b _) fun _ _ => .pure _
  | interestBearingMintExtension | transferHookExtension | metadataPointerExtension
    | groupPointerExtension | groupMemberPointerExtension =>
    exact .bind (decodeConfig_avoids b _ _ _ _) fun _ _ => .pure _
  | _ => exact .pure _

theorem decodeInput_avoids (interfaces : InterfaceDecoders) :
    Avoids Fault.panic (decodeInput interfaces b) := by
  cases b with
  | nil =>
    simp only [decodeInput, decodeInstructionType]
    split
    case h_1 => exact .pure _
    case h_2 => exact .pure _
    case h_3 => exact .error (by decide)
  | cons x rest =>
    unfold decodeInput
    split
    case h_1 t ht =>
      refine .bind (t.decode_avoids x rest) fun i _ => ?_
      rw [slice_tail, ok_bind]
      exact i.request_avoids rest
    case h_2 =>
      split
      case h_1 => exact .pure _
      case h_2 => exact .pure _
      case h_3 => exact .error (by decide)

end Panics

/-- What the client functions write is decoded to what it was written for, and so are
other bytes but zero where they write 1 for a flag; no bytes panic, and what is accepted
begins with such bytes, or is an interface's. -/
theorem input_codec (interfaces : InterfaceDecoders) :
    (∀ r w, r.encode = some w → decodeInput interfaces w = .ok r) ∧
    (∀ r p q w, p ≠ 0 → q ≠ 0 → r.encodeWith p q = some w → decodeInput interfaces w = .ok r) ∧
    (∀ b, decodeInput interfaces b ≠ .error Fault.panic) ∧
    ∀ b r, decodeInput interfaces b = .ok r → Written r b ∨ OfInterface interfaces r b :=
  ⟨fun _ _ => decodeInput_request interfaces (by decide) (by decide),
    fun _ _ _ _ hp hq => decodeInput_request interfaces hp hq, fun b => decodeInput_avoids b interfaces,
    fun _ _ => decodeInput_sound⟩

/-- A transfer of 258 tokens of nine decimals, for a fee of three. -/
theorem input_codec_transferCheckedWithFee :
    decodeInput ⟨fun _ => none, fun _ => none⟩
      [26, 1, 2, 1, 0, 0, 0, 0, 0, 0, 9, 3, 0, 0, 0, 0, 0, 0, 0] =
      .ok (.instruction (.transferCheckedWithFee 258 9 3)) :=
  (input_codec ⟨fun _ => none, fun _ => none⟩).1 (.instruction (.transferCheckedWithFee 258 9 3)) _ rfl

end Wire
end BarkToken
