import BarkToken.Bytes.Fields

/-!
# What handlers assign to a base state (pod.rs:22-256, state.rs:75-200)

Handlers assign single fields of `PodMint` and `PodAccount`, or pack a whole
base state over the old bytes.
-/

namespace BarkToken

namespace Bytes

/-! ### Options -/

/-- `PodCOption::none` (`pod.rs:173-182`). -/
protected def PodCOption.none {α : Type} [Inhabited α] : PodCOption α := ⟨NONE, default⟩

/-- `PodCOption::some` (`pod.rs:184-190`). -/
protected def PodCOption.some {α : Type} (value : α) : PodCOption α := ⟨SOME, value⟩

/-- What `unpack_pubkey_option` returns for the option in an instruction's data
(`pod_instruction.rs:119-131`). -/
def podPubkeyOption : Option Pubkey → PodCOption Pubkey
  | none => .none
  | some key => .some key

instance {α : Type} (p : PodCOption α) : Decidable p.isSome :=
  inferInstanceAs (Decidable (p.option = PodCOption.SOME))

theorem PodCOption.agrees_none {α : Type} [Inhabited α] :
    (PodCOption.none : PodCOption α).Agrees none := rfl

theorem PodCOption.agrees_some {α : Type} (v : α) : (PodCOption.some v).Agrees (some v) :=
  ⟨rfl, rfl⟩

theorem agrees_podPubkeyOption (o : Option Pubkey) : (podPubkeyOption o).Agrees o := by
  cases o with
  | none => exact PodCOption.agrees_none
  | some key => exact PodCOption.agrees_some key

theorem PodCOption.Agrees.isSome_iff {α : Type} {p : PodCOption α} {o : Option α}
    (h : p.Agrees o) : p.isSome ↔ o.isSome := by
  have hdistinct : PodCOption.NONE ≠ PodCOption.SOME := by decide
  cases o with
  | none => exact iff_of_false (fun hsome => hdistinct (h.symm.trans hsome)) (by simp)
  | some v => exact iff_of_true h.1 rfl

theorem PodCOption.Agrees.unique {α : Type} {p : PodCOption α} {o o' : Option α}
    (h : p.Agrees o) (h' : p.Agrees o') : o = o' := by
  have hiff := h.isSome_iff.symm.trans h'.isSome_iff
  cases o with
  | none =>
    cases o' with
    | none => rfl
    | some v => exact absurd (hiff.mpr rfl) (by simp)
  | some v =>
    cases o' with
    | none => exact absurd (hiff.mp rfl) (by simp)
    | some v' => rw [← h.2, ← h'.2]

/-! ### Assignments -/

/-- One assignment to the base state of a token account. -/
inductive AccountAssign where
  | mint (key : Pubkey)
  | owner (key : Pubkey)
  | amount (amount : UInt64)
  | delegate (p : PodCOption Pubkey)
  | state (x : UInt8)
  | isNative (p : PodCOption UInt64)
  | delegatedAmount (amount : UInt64)
  | closeAuthority (p : PodCOption Pubkey)
  | packBase (a : PodAccount)

/-- One assignment to the base state of a mint. -/
inductive MintAssign where
  | mintAuthority (p : PodCOption Pubkey)
  | supply (amount : UInt64)
  | decimals (x : UInt8)
  | isInitialized (x : UInt8)
  | freezeAuthority (p : PodCOption Pubkey)
  | pack (m : PodMint)

/-- `Account::pack_into_slice` over `p`: the body of an option stays under `None`. -/
def AccountView.pack (a : PodAccount) (p : AccountView) : AccountView where
  mint := a.mint
  owner := a.owner
  amount := a.amount
  delegate := packed a.delegate p.delegate
  state := stateByte a.state
  isNative := packed a.isNative p.isNative
  delegatedAmount := a.delegatedAmount
  closeAuthority := packed a.closeAuthority p.closeAuthority

/-- `Mint::pack_into_slice` over `p`. -/
def MintView.pack (m : PodMint) (p : MintView) : MintView where
  mintAuthority := packed m.mintAuthority p.mintAuthority
  supply := m.supply
  decimals := m.decimals
  isInitialized := boolByte m.isInitialized
  freezeAuthority := packed m.freezeAuthority p.freezeAuthority

def AccountAssign.apply (p : AccountView) : AccountAssign → AccountView
  | .mint key => { p with mint := key }
  | .owner key => { p with owner := key }
  | .amount x => { p with amount := x }
  | .delegate q => { p with delegate := q }
  | .state x => { p with state := x }
  | .isNative q => { p with isNative := q }
  | .delegatedAmount x => { p with delegatedAmount := x }
  | .closeAuthority q => { p with closeAuthority := q }
  | .packBase a => p.pack a

def MintAssign.apply (p : MintView) : MintAssign → MintView
  | .mintAuthority q => { p with mintAuthority := q }
  | .supply x => { p with supply := x }
  | .decimals x => { p with decimals := x }
  | .isInitialized x => { p with isInitialized := x }
  | .freezeAuthority q => { p with freezeAuthority := q }
  | .pack m => p.pack m

/-- The assignments of a handler, one after the other. -/
def AccountView.assign (p : AccountView) (assigns : List AccountAssign) : AccountView :=
  assigns.foldl AccountAssign.apply p

def MintView.assign (p : MintView) (assigns : List MintAssign) : MintView :=
  assigns.foldl MintAssign.apply p

theorem AccountView.assign_append (p : AccountView) (as bs : List AccountAssign) :
    p.assign (as ++ bs) = (p.assign as).assign bs := List.foldl_append

/-! ### `pack_into_slice` on bytes -/

section Pack

variable {b : Bytes}

/-- `Account::pack_into_slice`, seen through `PodAccount`. -/
theorem podAccount_packAccount (a : PodAccount) (h : b.length = baseAccountLength) :
    podAccount (packAccount a b) = (podAccount b).pack a := by
  have hlen : b.length = 165 := h
  have hmint : (packAccount a b).drop 0 = keyBytes a.mint ++ (keyBytes a.owner ++
      (u64Bytes a.amount ++ (packCOption keyBytes a.delegate (field b 72 36) ++
      ([stateByte a.state] ++ (packCOption u64Bytes a.isNative (field b 109 12) ++
      (u64Bytes a.delegatedAmount ++
        (packCOption keyBytes a.closeAuthority (field b 129 36) ++ []))))))) := by
    simp only [packAccount, List.singleton_append, List.append_nil, List.drop_zero]
  have howner := drop_append_of_drop hmint (length_keyBytes a.mint)
  have hamount := drop_append_of_drop howner (length_keyBytes a.owner)
  have hdelegate := drop_append_of_drop hamount (length_u64Bytes a.amount)
  have hstate := drop_append_of_drop hdelegate
    (length_packCOption length_keyBytes a.delegate (length_field (by omega)))
  have hnative := drop_append_of_drop hstate (List.length_singleton (a := stateByte a.state))
  have hdelegated := drop_append_of_drop hnative
    (length_packCOption length_u64Bytes a.isNative (length_field (by omega)))
  have hclose := drop_append_of_drop hdelegated (length_u64Bytes a.delegatedAmount)
  simp only [Nat.zero_add, Nat.reduceAdd] at howner hamount hdelegate hstate hnative hdelegated hclose
  rw [podAccount, key_of_drop hmint, key_of_drop howner, u64_of_drop hamount,
    podKey_packed hdelegate (by omega), byte_packAccount a h, podU64_packed hnative (by omega),
    u64_of_drop hdelegated, podKey_packed hclose (by omega)]
  rfl

/-- `Mint::pack_into_slice`, seen through `PodMint`. -/
theorem podMint_packMint (m : PodMint) (h : b.length = mintLen) :
    podMint (packMint m b) = (podMint b).pack m := by
  have hlen : b.length = 82 := h
  have hauthority : (packMint m b).drop 0 = packCOption keyBytes m.mintAuthority (field b 0 36) ++
      (u64Bytes m.supply ++ ([m.decimals] ++ ([boolByte m.isInitialized] ++
        (packCOption keyBytes m.freezeAuthority (field b 46 36) ++ [])))) := by
    simp only [packMint, List.singleton_append, List.append_nil, List.drop_zero]
  have hsupply := drop_append_of_drop hauthority
    (length_packCOption length_keyBytes m.mintAuthority (length_field (by omega)))
  have hdecimals := drop_append_of_drop hsupply (length_u64Bytes m.supply)
  have hinit := drop_append_of_drop hdecimals (List.length_singleton (a := m.decimals))
  have hfreeze := drop_append_of_drop hinit (List.length_singleton (a := boolByte m.isInitialized))
  simp only [Nat.zero_add, Nat.reduceAdd] at hsupply hdecimals hinit hfreeze
  rw [podMint, podKey_packed hauthority (by omega), u64_of_drop hsupply,
    byte_of_drop hdecimals, byte_of_drop hinit, podKey_packed hfreeze (by omega)]
  rfl

theorem length_packMint (m : PodMint) (h : b.length = mintLen) :
    (packMint m b).length = mintLen := by
  have hlen : b.length = 82 := h
  have hauthority : (packCOption keyBytes m.mintAuthority (field b 0 36)).length = 36 :=
    length_packCOption length_keyBytes m.mintAuthority (length_field (by omega))
  have hfreeze : (packCOption keyBytes m.freezeAuthority (field b 46 36)).length = 36 :=
    length_packCOption length_keyBytes m.freezeAuthority (length_field (by omega))
  rw [packMint, List.length_append, List.length_append, List.length_cons, List.length_cons,
    hauthority, hfreeze, length_u64Bytes]
  rfl

end Pack

end Bytes
end BarkToken
