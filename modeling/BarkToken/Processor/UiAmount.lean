import BarkToken.Foundation.Decimal
import BarkToken.Processor.Common

/-!
# UI amounts (lib.rs, processor.rs)

Amounts as decimal strings. A string is the list of its characters.
-/

namespace BarkToken
open Fallible Decimal

/-- `amount_to_ui_amount_string` (`lib.rs:50-61`). -/
def amountToUiAmountString (amount : UInt64) (decimals : UInt8) : List Char :=
  let digits := Nat.toDigits 10 amount.toNat
  if 0 < decimals then
    -- Left-pad zeros, so that there is at least an integer zero
    let s := List.replicate (decimals.toNat + 1 - digits.length) '0' ++ digits
    s.take (s.length - decimals.toNat) ++ '.' :: s.drop (s.length - decimals.toNat)
  else digits

/-- `amount_to_ui_amount_string_trimmed` (`lib.rs:65-72`). -/
def amountToUiAmountStringTrimmed (amount : UInt64) (decimals : UInt8) : List Char :=
  let s := amountToUiAmountString amount decimals
  if 0 < decimals then trimEndMatches '.' (trimEndMatches '0' s) else s

/-- `try_ui_amount_into_amount` (`lib.rs:76-98`). -/
def tryUiAmountIntoAmount (uiAmount : List Char) (decimals : UInt8) : Except Fault UInt64 := do
  let parts := uiAmount.splitOn '.'
  let amountStr := parts.headD []
  let afterDecimal := trimEndMatches '0' (parts[1]?.getD [])
  ensure (¬ ((amountStr = [] ∧ afterDecimal = []) ∨ parts[2]?.isSome ∨
      decimals.toNat < utf8Len afterDecimal))
    (ProgramError.invalidArgument : Fault)
  okOr (parseU64 (amountStr ++ afterDecimal ++
      List.replicate (decimals.toNat - utf8Len afterDecimal) '0'))
    (ProgramError.invalidArgument : Fault)

/-- What an interest-bearing mint computes in floating point instead
(`interest_bearing_mint/mod.rs:83-118`). -/
structure InterestDisplay where
  amountToUiAmount : InterestBearingConfig → UInt64 → UInt8 → Int64 → Option (List Char)
  tryUiAmountIntoAmount : InterestBearingConfig → List Char → UInt8 → Int64 → Except Fault UInt64

/-- The mint that both instructions read. -/
def uiAmountMint (accounts : List AccountInfo) (l : Ledger) :
    Except Fault (PodStateWithExtensions PodMint) := do
  let (mintInfo, _) ← nextAccountInfo accounts
  checkProgramAccount (l mintInfo.key).owner
  mapErr (l mintInfo.key).data.unpackMint fun _ => TokenError.invalidMint

/-- `process_amount_to_ui_amount` (`processor.rs:1337-1356`), which returns the string as
the instruction's return data. -/
def processAmountToUiAmount (display : InterestDisplay) (env : Env) (amount : UInt64)
    (accounts : List AccountInfo) (l : Ledger) : Except Fault (List Char) := do
  let mint ← uiAmountMint accounts l
  match mint.getExtension .interestBearingConfig with
  | .ok extension =>
    okOr (display.amountToUiAmount extension amount mint.base.decimals env.unixTimestamp)
      (ProgramError.invalidArgument : Fault)
  | .error _ => return amountToUiAmountStringTrimmed amount mint.base.decimals

/-- `process_ui_amount_to_amount` (`processor.rs:1359-1376`). -/
def processUiAmountToAmount (display : InterestDisplay) (env : Env) (uiAmount : List Char)
    (accounts : List AccountInfo) (l : Ledger) : Except Fault UInt64 := do
  let mint ← uiAmountMint accounts l
  match mint.getExtension .interestBearingConfig with
  | .ok extension =>
    display.tryUiAmountIntoAmount extension uiAmount mint.base.decimals env.unixTimestamp
  | .error _ => tryUiAmountIntoAmount uiAmount mint.base.decimals

end BarkToken
