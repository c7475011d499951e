import UxContracts.ForStd.Accrual
import UxContracts.ForStd.Chain
import UxContracts.ForStd.Codec
import UxContracts.ForStd.Int64
import UxContracts.ForStd.List
import UxContracts.ForStd.Local
import UxContracts.ForStd.MovingAverage
import UxContracts.ForStd.Ranking
import UxContracts.ForStd.Run
import UxContracts.ForStd.Table
import UxContracts.ForStd.Tally
import UxContracts.Native.Accounts
import UxContracts.Native.Asset
import UxContracts.Native.Auction
import UxContracts.Native.AuthChanges
import UxContracts.Native.Bandwidth
import UxContracts.Native.Binary64
import UxContracts.Native.Chain
import UxContracts.Native.Contract
import UxContracts.Native.Deferred
import UxContracts.Native.Deployment
import UxContracts.Native.Double
import UxContracts.Native.Election
import UxContracts.Native.Inflation
import UxContracts.Native.Info
import UxContracts.Native.Limits
import UxContracts.Native.Multisig
import UxContracts.Native.ProducerRows
import UxContracts.Native.Producers
import UxContracts.Native.Ram
import UxContracts.Native.Resource
import UxContracts.Native.System
import UxContracts.Native.Token
import UxContracts.Native.Usage
import UxContracts.Native.Voting
import UxContracts.Spec.AccountControl
import UxContracts.Spec.Activation
import UxContracts.Spec.AgreeingOracles
import UxContracts.Spec.ApprovalLists
import UxContracts.Spec.AuctionChange
import UxContracts.Spec.AuctionClose
import UxContracts.Spec.AuctionEscrow
import UxContracts.Spec.AuctionPace
import UxContracts.Spec.AuthLimits
import UxContracts.Spec.BoundedInflation
import UxContracts.Spec.ClosedNames
import UxContracts.Spec.ConfigUpdates
import UxContracts.Spec.CoreToken
import UxContracts.Spec.DatasetConsensus
import UxContracts.Spec.DatasetPayouts
import UxContracts.Spec.DeploymentChange
import UxContracts.Spec.DeploymentRows
import UxContracts.Spec.ElectionChange
import UxContracts.Spec.ExactReading
import UxContracts.Spec.ExactWeights
import UxContracts.Spec.FilledRows
import UxContracts.Spec.HashTallies
import UxContracts.Spec.HistoryChange
import UxContracts.Spec.HonestOracles
import UxContracts.Spec.HonestPeriods
import UxContracts.Spec.HonestPool
import UxContracts.Spec.HonestQuorum
import UxContracts.Spec.InflationTokens
import UxContracts.Spec.InflationWaterfall
import UxContracts.Spec.Issuance
import UxContracts.Spec.IssuedHistory
import UxContracts.Spec.LimitsLedger
import UxContracts.Spec.NameClasses
import UxContracts.Spec.Payouts
import UxContracts.Spec.PeriodChange
import UxContracts.Spec.PeriodClose
import UxContracts.Spec.PremiumNames
import UxContracts.Spec.ProducerPay
import UxContracts.Spec.Propagation
import UxContracts.Spec.ProposalInstances
import UxContracts.Spec.ProposalIsolation
import UxContracts.Spec.ProposalRecord
import UxContracts.Spec.ProxyGraph
import UxContracts.Spec.RamLedger
import UxContracts.Spec.RamPurchase
import UxContracts.Spec.RamRate
import UxContracts.Spec.RamSupply
import UxContracts.Spec.RamTrading
import UxContracts.Spec.RefundDelay
import UxContracts.Spec.RefundSchedule
import UxContracts.Spec.ResourceEffects
import UxContracts.Spec.RowEncoding
import UxContracts.Spec.Schedule
import UxContracts.Spec.SelfStake
import UxContracts.Spec.Solvency
import UxContracts.Spec.StakeBacking
import UxContracts.Spec.StakeLedger
import UxContracts.Spec.StakeRelease
import UxContracts.Spec.Staking
import UxContracts.Spec.StakingBlocks
import UxContracts.Spec.StandingApprovals
import UxContracts.Spec.StoredVotes
import UxContracts.Spec.SubmissionTables
import UxContracts.Spec.Submissions
import UxContracts.Spec.TallyRuns
import UxContracts.Spec.TokenAuthority
import UxContracts.Spec.TokenConservation
import UxContracts.Spec.TokenIsolation
import UxContracts.Spec.TokenTransfer
import UxContracts.Spec.TopProducers
import UxContracts.Spec.TotalsConsensus
import UxContracts.Spec.UsageAverages
import UxContracts.Spec.UsageCapacity
import UxContracts.Spec.UtilityPool
import UxContracts.Spec.Verifications
import UxContracts.Spec.VoteTallies
import UxContracts.Spec.VotepayRuns
import UxContracts.Spec.VotepayShares
import UxContracts.Spec.VoterBase
import UxContracts.Spec.VoterChange
import UxContracts.Spec.VotingFrame
import UxContracts.Spec.Wealth
