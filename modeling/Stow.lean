import Stow.Access.Exclusion
import Stow.Access.RateLimit
import Stow.Access.Webhook
import Stow.Activity.Export
import Stow.Adapter.Batch
import Stow.Adapter.Custody
import Stow.Adapter.Fees
import Stow.Adapter.Migration
import Stow.Adapter.Queue
import Stow.Adapter.RoundTrip
import Stow.Admin.AuditLog
import Stow.Auth.Ceremonies
import Stow.Auth.Login
import Stow.Auth.Rotation
import Stow.Frontend.GroupShares
import Stow.Indexer.Recovery
import Stow.Indexer.Withdrawals
import Stow.Notifications.Digest
import Stow.Projection.Settlements
import Stow.Roundup.Deposits
import Stow.Vault.Accrual
import Stow.Vault.Arbitrage
import Stow.Vault.Ballots
import Stow.Vault.Claims
import Stow.Vault.Custody
import Stow.Vault.Delegated
import Stow.Vault.GoalClaims
import Stow.Vault.Ids
import Stow.Vault.Inheritance
import Stow.Vault.RewardPool
import Stow.Vault.RewardPreview
import Stow.Vault.Sensitive
import Stow.Vault.Solvency
import Stow.Vault.Streak
import Stow.Auth.AppleKeys
import Stow.Roundup.Calculator
import Stow.Nft.Milestones
