import BarkToken.Foundation.Fallible
import BarkToken.Foundation.CheckedWord
import BarkToken.Foundation.TypedStore
import BarkToken.Foundation.KeyedSum
import BarkToken.Foundation.Footprint
import BarkToken.State.Pubkey
import BarkToken.State.Error
import BarkToken.State.Extension
import BarkToken.State.ProofContext
import BarkToken.State.AccountData
import BarkToken.State.Ledger
import BarkToken.Processor.Common
import BarkToken.Processor.Initialize
import BarkToken.TransferFee.Fee
import BarkToken.Processor.Transfer
import BarkToken.Processor.Authority
import BarkToken.Processor.Supply
import BarkToken.Processor.Lamports
import BarkToken.TransferFee.Processor
import BarkToken.Extension.Externals
import BarkToken.Extension.Account
import BarkToken.Extension.Mint
import BarkToken.Extension.Interface
import BarkToken.Confidential.Extraction
import BarkToken.Confidential.Proof
import BarkToken.Confidential.Account
import BarkToken.Confidential.Transfer
import BarkToken.Confidential.Fee
import BarkToken.Foundation.Transition
import BarkToken.Program.Instruction
import BarkToken.Program.Run
import BarkToken.Step.Change
import BarkToken.Step.Write
import BarkToken.Step.Authority
import BarkToken.Step.Initialize
import BarkToken.Step.Lamports
import BarkToken.Step.Interface
import BarkToken.Step.Hook
import BarkToken.Step.Transfer
import BarkToken.Step.Supply
import BarkToken.Step.Fee
import BarkToken.Step.Confidential
import BarkToken.Step.ConfidentialTransfer
import BarkToken.Step.ConfidentialFee
import BarkToken.Step.Process
import BarkToken.Step.Record
import BarkToken.Invariant.WellFormed
import BarkToken.Conservation.Valuation
import BarkToken.Conservation.Public
import BarkToken.Conservation.Fees
import BarkToken.Invariant.Mints
import BarkToken.Conservation.Supply
import BarkToken.Program.Replay
import BarkToken.Guarantee.FeeNotice
import BarkToken.Guarantee.Revocation
import BarkToken.Guarantee.Thawing
import BarkToken.Step.ConfidentialChecks
import BarkToken.Invariant.Accounts
import BarkToken.Guarantee.Frozen
import BarkToken.Invariant.Markers
import BarkToken.Guarantee.Permanence
import BarkToken.Guarantee.Restrictions
import BarkToken.Guarantee.Debits
import BarkToken.Guarantee.Delegation
import BarkToken.Guarantee.Backing
import BarkToken.Guarantee.Signatures
import BarkToken.Guarantee.FeeCollection
import BarkToken.Guarantee.PendingBalance
import BarkToken.Guarantee.TlvWalkers
import BarkToken.Guarantee.TlvErrors
import BarkToken.Guarantee.ExtensionMap
import BarkToken.Guarantee.AccountKinds
import BarkToken.Guarantee.VariableLen
import BarkToken.Guarantee.PackPod
import BarkToken.Guarantee.AccountSizes
import BarkToken.Guarantee.MintExtensions
import BarkToken.Guarantee.ConfidentialState
import BarkToken.Guarantee.TransferEffect
import BarkToken.Guarantee.FeeArithmetic
import BarkToken.Guarantee.Multisig
import BarkToken.Guarantee.InterestRate
import BarkToken.Guarantee.InterestRuns
import BarkToken.Processor.UiAmount
import BarkToken.Guarantee.UiAmounts
import BarkToken.Guarantee.GroupMembers
import BarkToken.Guarantee.StatePacking
import BarkToken.Guarantee.GenericTokenAccount
import BarkToken.Guarantee.DeclaredFee
import BarkToken.Guarantee.SplitProof
import BarkToken.Guarantee.SupplyConservation
import BarkToken.Guarantee.InstructionCodec
import BarkToken.Guarantee.InputCodec
import BarkToken.Guarantee.InputRuns
import BarkToken.Guarantee.ConfidentialSupply
import BarkToken.Guarantee.ConfidentialEffect
import BarkToken.Guarantee.AppliedBalance
import BarkToken.Footprint.Common
import BarkToken.Footprint.Processor
import BarkToken.Footprint.Extension
import BarkToken.Footprint.Confidential
import BarkToken.Footprint.Process
import BarkToken.Guarantee.Scheduling
import BarkToken.Foundation.Custody
import BarkToken.Guarantee.Custody
import BarkToken.Guarantee.CpiGuard
import BarkToken.Guarantee.TransferHooks
import BarkToken.Guarantee.Liquidity
