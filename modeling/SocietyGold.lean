import SocietyGold.Support.Checked
import SocietyGold.Support.Table
import SocietyGold.Support.BatchStore
import SocietyGold.Support.Trace
import SocietyGold.Support.Guarded
import SocietyGold.Serialize
import SocietyGold.Bignum
import SocietyGold.Script
import SocietyGold.Transaction
import SocietyGold.Block
import SocietyGold.TxDb
import SocietyGold.State
import SocietyGold.CheckBlock
import SocietyGold.ReadFromDisk
import SocietyGold.Inputs
import SocietyGold.SpentMarks
import SocietyGold.Connect
import SocietyGold.StakeModifier
import SocietyGold.Target
import SocietyGold.Kernel
import SocietyGold.BestChain
import SocietyGold.AcceptBlock
import SocietyGold.ConnectGuards
import SocietyGold.InputBounds
import SocietyGold.ConnectRounds
import SocietyGold.ConnectedIndex
import SocietyGold.Undo
import SocietyGold.TipChange
import SocietyGold.DoubleSpend
import SocietyGold.IndexAtomicity
import SocietyGold.Inflation
import SocietyGold.BlockAdmission
import SocietyGold.ForkChoice
import SocietyGold.PreviousTransaction
import SocietyGold.StakeSoundness
import SocietyGold.MoneySupply
import SocietyGold.GetBlocks
import SocietyGold.ProcessMessages
import SocietyGold.Opcodes
import SocietyGold.ScriptNum
import SocietyGold.BlockBuffer
import SocietyGold.CheckSig
import SocietyGold.CompetingBlocks
import SocietyGold.EvalScript
import SocietyGold.MerkleBranch
import SocietyGold.ScriptRuns
import SocietyGold.SignSignature
import SocietyGold.AcceptToMemoryPool
import SocietyGold.CoinbaseHeight
import SocietyGold.Locators
import SocietyGold.MasternodePayments
import SocietyGold.MerkleRoot
import SocietyGold.OrphanPool
import SocietyGold.OrphanResolution
import SocietyGold.PoolConflicts
import SocietyGold.StakeSelection
import SocietyGold.DarkSendSigner
import SocietyGold.Sporks
import SocietyGold.SporkAuthority
import SocietyGold.SporkAgreement
import SocietyGold.Unserialize
import SocietyGold.RoundTrips
import SocietyGold.TxPositions
import SocietyGold.NetAddr
import SocietyGold.AddrMan
import SocietyGold.AddrTables
import SocietyGold.AddrManIndex
import SocietyGold.AddrManSteps
import SocietyGold.AddrManPromotion
import SocietyGold.AddrManRuns
import SocietyGold.AddrManCheck
import SocietyGold.AddrManFile
import SocietyGold.AddrManRenumbered
import SocietyGold.AddrManReload
import SocietyGold.AddrManRoundTrip
import SocietyGold.AcceptableInputs
import SocietyGold.Masternode
import SocietyGold.MasternodeMan
import SocietyGold.MasternodeAnnounce
import SocietyGold.MasternodeAdmission
import SocietyGold.DeadMasternodes
import SocietyGold.AddrIndex
import SocietyGold.AddrIndexRuns
import SocietyGold.MasternodeUpkeep
import SocietyGold.ChainHashes
import SocietyGold.ScoreHash
import SocietyGold.PaymentVotes
import SocietyGold.MasternodeCache
import SocietyGold.InstantX
import SocietyGold.InstantXLocks
import SocietyGold.InstantXForged
import SocietyGold.InstantXOrder
import SocietyGold.ScriptText
import SocietyGold.Darksend
import SocietyGold.DarksendClient
import SocietyGold.DarksendSignatures
import SocietyGold.DarksendSession
import SocietyGold.DarksendRuns
import SocietyGold.IndexScan
import SocietyGold.BufferAccess
import SocietyGold.BlockSources
import SocietyGold.MerkleProofs
import SocietyGold.SendQueue
import SocietyGold.XxHash
import SocietyGold.SecureMsg
import SocietyGold.SecureMsgData
import SocietyGold.SecureMsgBounds
import SocietyGold.Wallet
import SocietyGold.WalletIndex
import SocietyGold.WalletCoins
import SocietyGold.WalletSpends
import SocietyGold.KeyPoolRuns
import SocietyGold.SecureMsgConsistency
import SocietyGold.Support.Tokens
import SocietyGold.Support.Descendants
import SocietyGold.Compact
import SocietyGold.Retarget
import SocietyGold.FindAndDelete
import SocietyGold.StackAccess
import SocietyGold.MultisigLoop
import SocietyGold.StackSafety
import SocietyGold.InputStandardness
import SocietyGold.FindBlock
import SocietyGold.PoolDescendants
import SocietyGold.CombineSignatures
import SocietyGold.SecureMsgDecrypt
import SocietyGold.LoadBlockIndex
import SocietyGold.RestartedIndex
import SocietyGold.Support.BijectiveDigits
import SocietyGold.Support.KeyedQueue
import SocietyGold.Support.ListSwap
import SocietyGold.CompactSizes
import SocietyGold.VarInt
import SocietyGold.ScriptCompressor
import SocietyGold.ScriptItems
import SocietyGold.ScriptNumForms
import SocietyGold.TemplateForms
import SocietyGold.DERSignatures
import SocietyGold.SecureMsgQueue
import SocietyGold.AddrManEviction
import SocietyGold.AddrManForeign
import SocietyGold.Support.Refinement
import SocietyGold.Support.RandomEviction
import SocietyGold.Support.Ranking
import SocietyGold.VarIntCodes
import SocietyGold.DataStream
import SocietyGold.SignatureCache
import SocietyGold.SporkTexts
import SocietyGold.MasternodeRanks
import SocietyGold.RandomMasternode
import SocietyGold.SecretKeys
import SocietyGold.PayeeChoice
import SocietyGold.DarksendUsers
import SocietyGold.MixingMessages
import SocietyGold.InstantXCleaning
import SocietyGold.Support.Multimap
import SocietyGold.LimitedMap
import SocietyGold.MoneyText
import SocietyGold.SecureMsgBunch
import SocietyGold.Base58
import SocietyGold.Support.Components
import SocietyGold.AddressGroupings
import SocietyGold.MixingDepth
import SocietyGold.CoinSelection
import SocietyGold.CreateTransaction
import SocietyGold.CreateCoinStake
import SocietyGold.LaxDER
import SocietyGold.CryptoKeyStore
import SocietyGold.KeyWallet
import SocietyGold.KeyWalletRuns
