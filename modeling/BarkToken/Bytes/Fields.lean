import BarkToken.Bytes.Views
import BarkToken.Foundation.RecordLayout

/-!
# Fields of a base state, read and written (state.rs:51-315)

Keys and amounts take up a fixed number of bytes, options a tag before them.
Packing over a buffer and reading a field of it undo one another.
-/

namespace BarkToken

namespace Bytes

variable {b y : Bytes} {i : ℕ}

/-! ### Offsets -/

theorem field_drop (b : Bytes) (i n m : ℕ) : (field b i (n + m)).drop n = field b (i + n) m := by
  rw [field, field, List.drop_take, List.drop_drop, Nat.add_sub_cancel_left]

theorem field_append (b : Bytes) (i n m : ℕ) : field b i n ++ field b (i + n) m = field b i (n + m) := by
  rw [field, field, field, List.take_add, List.drop_drop]

theorem field_field (b : Bytes) (i : ℕ) {j n m : ℕ} (h : j + m ≤ n) :
    field (field b i n) j m = field b (i + j) m := by
  rw [field, field, field, List.drop_take, List.take_take, List.drop_drop,
    Nat.min_eq_left (by omega)]

theorem drop_append_of_drop {u v : Bytes} {n : ℕ} (h : b.drop i = u ++ v) (hu : u.length = n) :
    b.drop (i + n) = v := by
  rw [← List.drop_drop, h, ← hu, List.drop_left]

theorem byte_of_drop {n : UInt8} (h : b.drop i = n :: y) : byte b i = n := by
  have hget : b[i]? = some n := by
    rw [← Nat.add_zero i, ← List.getElem?_drop, h]
    rfl
  rw [byte, List.getD_eq_getElem?_getD, hget]
  rfl

theorem field_one (h : i < b.length) : field b i 1 = [byte b i] := by
  rw [field, byte, List.getD_eq_getElem?_getD, List.getElem?_eq_getElem h, List.drop_eq_getElem_cons h]
  rfl

/-! ### Keys and amounts -/

/-- A value of a fixed number of bytes, as it is read at an offset. -/
structure FixedBytes (β : Type) where
  width : ℕ
  bytes : β → Bytes
  value : Bytes → ℕ → β
  length_bytes : ∀ v, (bytes v).length = width
  value_of_drop : ∀ b y i v, b.drop i = bytes v ++ y → value b i = v
  bytes_value : ∀ b i, i + width ≤ b.length → bytes (value b i) = field b i width

theorem key_of_drop {k : Pubkey} (h : b.drop i = keyBytes k ++ y) : key b i = k := by
  rw [key, field, h, ← length_keyBytes k, List.take_left, keyBytes,
    LittleEndian.toNat_bytes k.bytes.isLt, BitVec.ofNat_toNat, BitVec.setWidth_eq]

theorem u64_of_drop {n : UInt64} (h : b.drop i = u64Bytes n ++ y) : u64 b i = n := by
  rw [u64, field, h, ← length_u64Bytes n, List.take_left, u64Bytes,
    LittleEndian.toNat_bytes n.toNat_lt, UInt64.ofNat_toNat]

theorem keyBytes_key (h : i + 32 ≤ b.length) : keyBytes (key b i) = field b i 32 := by
  have hlen := length_field h
  have hlt : LittleEndian.toNat (field b i 32) < 2 ^ 256 := by
    have hbound := LittleEndian.toNat_lt (field b i 32)
    rw [hlen] at hbound
    exact hbound.trans_eq (by norm_num)
  rw [keyBytes, key, BitVec.toNat_ofNat, Nat.mod_eq_of_lt hlt]
  calc LittleEndian.bytes 32 (LittleEndian.toNat (field b i 32))
      = LittleEndian.bytes (field b i 32).length (LittleEndian.toNat (field b i 32)) := by rw [hlen]
    _ = field b i 32 := LittleEndian.bytes_toNat _

theorem u64Bytes_u64 (h : i + 8 ≤ b.length) : u64Bytes (u64 b i) = field b i 8 := by
  have hlen := length_field h
  have hlt := LittleEndian.toNat_lt (field b i 8)
  rw [hlen] at hlt
  rw [u64Bytes, u64, UInt64.toNat_ofNat_of_lt' hlt]
  calc LittleEndian.bytes 8 (LittleEndian.toNat (field b i 8))
      = LittleEndian.bytes (field b i 8).length (LittleEndian.toNat (field b i 8)) := by rw [hlen]
    _ = field b i 8 := LittleEndian.bytes_toNat _

def keyField : FixedBytes Pubkey where
  width := 32
  bytes := keyBytes
  value := key
  length_bytes := length_keyBytes
  value_of_drop _ _ _ _ h := key_of_drop h
  bytes_value _ _ h := keyBytes_key h

def u64Field : FixedBytes UInt64 where
  width := 8
  bytes := u64Bytes
  value := u64
  length_bytes := length_u64Bytes
  value_of_drop _ _ _ _ h := u64_of_drop h
  bytes_value _ _ h := u64Bytes_u64 h

/-! ### Options -/

/-- An option packed over `p`. -/
def packed {α : Type} (o : Option α) (p : PodCOption α) : PodCOption α :=
  match o with
  | some v => ⟨PodCOption.SOME, v⟩
  | none => ⟨PodCOption.NONE, p.value⟩

namespace FixedBytes

variable {β : Type} (c : FixedBytes β)

theorem bytes_inj {v w : β} (h : c.bytes v = c.bytes w) : v = w := by
  have hw := c.value_of_drop (c.bytes v) [] 0 w (by rw [List.drop_zero, List.append_nil, h])
  have hv := c.value_of_drop (c.bytes v) [] 0 v (by rw [List.drop_zero, List.append_nil])
  exact hv.symm.trans hw

/-- The value depends on the bytes of its field only. -/
theorem value_congr {b' : Bytes} {j : ℕ} (h : i + c.width ≤ b.length)
    (h' : j + c.width ≤ b'.length) (heq : field b i c.width = field b' j c.width) :
    c.value b i = c.value b' j := by
  apply c.bytes_inj
  rw [c.bytes_value b i h, c.bytes_value b' j h', heq]

/-- `podKey` and `podU64`. -/
def option (b : Bytes) (i : ℕ) : PodCOption β := ⟨field b i 4, c.value b (i + 4)⟩

theorem option_packed {b' : Bytes} {o : Option β}
    (h : b'.drop i = packCOption c.bytes o (field b i (4 + c.width)) ++ y)
    (hlen : i + (4 + c.width) ≤ b.length) : c.option b' i = packed o (c.option b i) := by
  cases o with
  | some k =>
    have htag : field b' i 4 = PodCOption.SOME := by
      rw [field, h, packCOption, List.append_assoc]
      rfl
    have hbody : b'.drop (i + 4) = c.bytes k ++ y :=
      drop_append_of_drop (u := PodCOption.SOME) (by rw [h, packCOption, List.append_assoc]) rfl
    rw [option, htag, c.value_of_drop _ _ _ _ hbody]
    rfl
  | none =>
    have htag : field b' i 4 = PodCOption.NONE := by
      rw [field, h, packCOption, List.append_assoc]
      rfl
    have hbody : b'.drop (i + 4) = field b (i + 4) c.width ++ y := by
      refine drop_append_of_drop (u := PodCOption.NONE) ?_ rfl
      rw [h, packCOption, List.append_assoc, field_drop b i 4 c.width]
    rw [← c.bytes_value b (i + 4) (by omega)] at hbody
    rw [option, htag, c.value_of_drop _ _ _ _ hbody]
    rfl

theorem packCOption_of_agrees {o : Option β} (h : (c.option b i).Agrees o)
    (hlen : i + (4 + c.width) ≤ b.length) :
    packCOption c.bytes o (field b i (4 + c.width)) = field b i (4 + c.width) := by
  have hsplit := field_append b i 4 c.width
  cases o with
  | some k =>
    obtain ⟨htag, rfl⟩ := h
    have htag : field b i 4 = PodCOption.SOME := htag
    rw [packCOption, ← htag]
    change field b i 4 ++ c.bytes (c.value b (i + 4)) = _
    rw [c.bytes_value b (i + 4) (by omega)]
    exact hsplit
  | none =>
    have htag : field b i 4 = PodCOption.NONE := h
    rw [packCOption, ← htag, field_drop b i 4 c.width]
    exact hsplit

theorem agrees_packed (o : Option β) (p : PodCOption β) : (packed o p).Agrees o := by
  cases o with
  | some v => exact ⟨rfl, rfl⟩
  | none => rfl

theorem value_field (h : i + c.width ≤ b.length) : c.value (field b i c.width) 0 = c.value b i := by
  have hlen := length_field h
  refine c.value_congr (by omega) h ?_
  rw [field, List.drop_zero, List.take_of_length_le (by omega)]

theorem option_field (h : i + (4 + c.width) ≤ b.length) :
    c.option (field b i (4 + c.width)) 0 = c.option b i := by
  have hlen := length_field h
  rw [option, option, field_field b i (by omega),
    c.value_congr (i := 0 + 4) (j := i + 4) (by omega) (by omega)
      (field_field b i (j := 0 + 4) (by omega))]
  rfl

/-! ### Codecs -/

/-- The value alone. -/
def codec : FieldCodec UInt8 β where
  width := c.width
  write v _ := c.bytes v
  Reads p v := c.value p 0 = v
  length_write v _ _ := c.length_bytes v
  reads_write v _ _ := c.value_of_drop _ [] 0 v (by rw [List.drop_zero, List.append_nil])
  write_of_reads v p hp h := by
    rw [← h, c.bytes_value p 0 (by omega), field, List.drop_zero, List.take_of_length_le hp.le]

/-- The value behind a tag, its bytes kept under `None`. -/
def optionCodec : FieldCodec UInt8 (Option β) where
  width := 4 + c.width
  write o p := packCOption c.bytes o p
  Reads p o := (c.option p 0).Agrees o
  length_write o _ hp := length_packCOption c.length_bytes o hp
  reads_write o p hp := by
    have hfield : field p 0 (4 + c.width) = p := by
      rw [field, List.drop_zero, List.take_of_length_le hp.le]
    have hdrop : (packCOption c.bytes o p).drop 0 =
        packCOption c.bytes o (field p 0 (4 + c.width)) ++ [] := by
      rw [List.drop_zero, hfield, List.append_nil]
    rw [c.option_packed hdrop (by omega)]
    exact agrees_packed o _
  write_of_reads o p hp h := by
    have hfield : field p 0 (4 + c.width) = p := by
      rw [field, List.drop_zero, List.take_of_length_le hp.le]
    have hwritten := c.packCOption_of_agrees h (by omega)
    rwa [hfield] at hwritten

end FixedBytes

theorem podKey_packed {b' : Bytes} {o : Option Pubkey}
    (h : b'.drop i = packCOption keyBytes o (field b i 36) ++ y) (hlen : i + 36 ≤ b.length) :
    podKey b' i = packed o (podKey b i) := keyField.option_packed h hlen

theorem podU64_packed {b' : Bytes} {o : Option UInt64}
    (h : b'.drop i = packCOption u64Bytes o (field b i 12) ++ y) (hlen : i + 12 ≤ b.length) :
    podU64 b' i = packed o (podU64 b i) := u64Field.option_packed h hlen

theorem packKey_of_agrees {o : Option Pubkey} (h : (podKey b i).Agrees o)
    (hlen : i + 36 ≤ b.length) : packCOption keyBytes o (field b i 36) = field b i 36 :=
  keyField.packCOption_of_agrees h hlen

/-- A value of one byte. -/
def byteCodec {β : Type} (toByte : β → UInt8) : FieldCodec UInt8 β where
  width := 1
  write v _ := [toByte v]
  Reads p v := byte p 0 = toByte v
  length_write _ _ _ := rfl
  reads_write _ _ _ := rfl
  write_of_reads v p hp h := by
    obtain ⟨x, rfl⟩ := List.length_eq_one_iff.mp hp
    rw [← h]
    rfl

end Bytes
end BarkToken
