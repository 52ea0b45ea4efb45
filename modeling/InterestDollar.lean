import InterestDollar.Checked.Result
import InterestDollar.Transition.Run
import InterestDollar.FixedPoint.Rate
import InterestDollar.Contract.Basic
import InterestDollar.Contract.StableMath
import InterestDollar.Token.Ledger
import InterestDollar.Token.Moves
import InterestDollar.Token.Outcome
import InterestDollar.Token.Conservation
import InterestDollar.Token.Solvency
import InterestDollar.Token.Movement
import InterestDollar.Token.Rebase
import InterestDollar.Listing.SwapRemove
import InterestDollar.Payout.Proportional
import InterestDollar.Vault.System
import InterestDollar.Vault.Value
import InterestDollar.Vault.Redeem
import InterestDollar.Vault.Core
import InterestDollar.Vault.Deposits
import InterestDollar.Vault.Valuation
import InterestDollar.Vault.PlainWorld
import InterestDollar.Vault.Admin
import InterestDollar.Vault.History
import InterestDollar.Vault.Registry
import InterestDollar.Vault.Outputs
import InterestDollar.Vault.Payment
import InterestDollar.Vault.RoundTrip
import InterestDollar.Vault.Rebase
import InterestDollar.Staking.Contract
import InterestDollar.Staking.Runs
import InterestDollar.Staking.Solvency
import InterestDollar.Token.Custody
import InterestDollar.Token.Choices
import InterestDollar.Listing.BackInsert
import InterestDollar.Staking.Stakes
import InterestDollar.Staking.Bookkeeping
import InterestDollar.Merkle.Tree
import InterestDollar.Contract.Keccak
import InterestDollar.Staking.AirDrop
import InterestDollar.FixedPoint.Portion
import InterestDollar.Liquidity.Contract
import InterestDollar.Liquidity.Runs
import InterestDollar.Liquidity.Entitlement
import InterestDollar.Liquidity.Bookkeeping
import InterestDollar.Liquidity.Solvency
import InterestDollar.Governance.Governor
import InterestDollar.Governance.Steps
import InterestDollar.Governance.History
import InterestDollar.Governance.Safety
import InterestDollar.Compensation.Claims
import InterestDollar.Compensation.Payout
import InterestDollar.Staking.Exit
import InterestDollar.Vault.Counting
import InterestDollar.Vault.Backing
import InterestDollar.Token.Cap
import InterestDollar.Governance.Cancellation
import InterestDollar.Strategy.Abstract
import InterestDollar.Strategy.Aave
import InterestDollar.Strategy.Compound
import InterestDollar.Strategy.Surroundings
import InterestDollar.Strategy.Mapping
import InterestDollar.Strategy.CoinOrder
import InterestDollar.Strategy.Operability
import InterestDollar.Strategy.PlainPlatform
import InterestDollar.Strategy.Payout
import InterestDollar.Strategy.Settlement
import InterestDollar.Strategy.Removal
import InterestDollar.Token.Effects
import InterestDollar.Token.Burning
import InterestDollar.Vault.Yield
import InterestDollar.Strategy.Reporting
import InterestDollar.Strategy.OwnOperations
import InterestDollar.Strategy.PlainExchange
import InterestDollar.Strategy.Withdrawal
import InterestDollar.Vault.Allocation
import InterestDollar.FixedPoint.Ratio
import InterestDollar.Staking.Holdings
import InterestDollar.Liquidity.Outstanding
import InterestDollar.Liquidity.Poking
import InterestDollar.Strategy.Provision
import InterestDollar.Transition.Office
import InterestDollar.Vault.Authority
import InterestDollar.Governance.Offices
import InterestDollar.Governance.Governed
import InterestDollar.Governance.Execution
import InterestDollar.Compensation.Sync
import InterestDollar.Staking.Verification
import InterestDollar.Token.Passive
import InterestDollar.Token.Plain
import InterestDollar.Staking.Drops
import InterestDollar.Vault.Backed
import InterestDollar.Strategy.Lending
