import CouncilDaemon.Common.MutualExclusion
import CouncilDaemon.DataBus.SerialTransactions
import CouncilDaemon.Deposits.Availability
import CouncilDaemon.Deposits.FreshEvents
import CouncilDaemon.Deposits.Recovery
import CouncilDaemon.Deposits.Replacement
import CouncilDaemon.Deposits.ResumePoint
import CouncilDaemon.Guardian.AuthenticDeposits
import CouncilDaemon.Guardian.BlockData
import CouncilDaemon.Guardian.CompletedChecks
import CouncilDaemon.Guardian.ContractSwitch
import CouncilDaemon.Guardian.DepositMessages
import CouncilDaemon.Guardian.DepositSafety
import CouncilDaemon.Guardian.DuplicateVerdicts
import CouncilDaemon.Guardian.MessageProvenance
import CouncilDaemon.Guardian.ProcessedBlocks
import CouncilDaemon.Guardian.Publications
import CouncilDaemon.Guardian.SecurityRefinement
import CouncilDaemon.Guardian.SenderSwitch
import CouncilDaemon.Guardian.Unvetting
import CouncilDaemon.Guardian.ValidationCache
import CouncilDaemon.Guardian.WithdrawalCredentials
import CouncilDaemon.Security.DirectTransactions
import CouncilDaemon.SigningKeys.Completeness
import CouncilDaemon.Transport.MalformedInput
import CouncilDaemon.Transport.SupersededSockets
