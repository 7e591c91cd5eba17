import BabaChain.SupplyAccounting
import BabaChain.Blacklist
import BabaChain.QuorumRootCache
import BabaChain.VerifiedLocks
import BabaChain.ListDiff
import BabaChain.Penalties
import BabaChain.ValidatorReorg
import BabaChain.PoSTarget
import BabaChain.EhfHistory
import BabaChain.CreditPoolConservation
import BabaChain.DiffMigration
import BabaChain.NonLockedTxs
import BabaChain.LockCaches
import BabaChain.LockIndexes
import BabaChain.MinerChainLock
import BabaChain.MinerAgreement
import BabaChain.SigningVotes
import BabaChain.RecoveredSigKeys
import BabaChain.RotationMembers
import BabaChain.BlockPayments
import BabaChain.EvoDbOverlay
import BabaChain.QuorumScanning
import BabaChain.DKGSafety
import BabaChain.WalletSync
import BabaChain.SocialReferrals
import BabaChain.CoinJoinClient
import BabaChain.CoinJoinSignatures
import BabaChain.RewardConservation
import BabaChain.RangesSetOps
import BabaChain.StakeLocks
import BabaChain.SelectionVerification
import BabaChain.ValidatorFaults
import BabaChain.PayloadScripts
import BabaChain.ListRollback
import BabaChain.PoSeBans
import BabaChain.SigShareSessions
import BabaChain.RefusedVotes
import BabaChain.QuorumConnections
import BabaChain.BatchModes
import BabaChain.CommitmentIndexing
import BabaChain.UnorderedLruCache
import BabaChain.CacheMaps
import BabaChain.GovernanceOrphans
import BabaChain.CoinJoinCharges
import BabaChain.AirdropTransfers
import BabaChain.CoinJoinRefusals
import BabaChain.CollateralChecks
import BabaChain.MixingRounds
import BabaChain.CollateralAmounts
import BabaChain.DenominatedAmounts
