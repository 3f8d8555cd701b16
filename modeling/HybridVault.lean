import HybridVault.Foundations.Codec
import HybridVault.Foundations.Containers
import HybridVault.Foundations.Fallible
import HybridVault.Foundations.Rejection
import HybridVault.Foundations.SequencedPoolDraws
import HybridVault.Foundations.Words
import HybridVault.Ledger
import HybridVault.PoolRefinement
import HybridVault.OracleChoice
import HybridVault.Devnet
import HybridVault.Selection
import HybridVault.Commitment
import HybridVault.Merkle
import HybridVault.AssetSource
import HybridVault.Solvency
import HybridVault.Instructions.Expire
import HybridVault.Instructions.Lifecycle
import HybridVault.Instructions.Release
import HybridVault.Upgrade
import HybridVault.Run
import HybridVault.Effects
import HybridVault.Refinement
import HybridVault.Reachability
import HybridVault.Reserve
import HybridVault.Treasury
import HybridVault.Partition
import HybridVault.Coherence
import HybridVault.Bookkeeping
import HybridVault.Exit
import HybridVault.Settlement
import HybridVault.Recovery
import HybridVault.LastResort
import HybridVault.Batch
import HybridVault.Fairness
import HybridVault.Queue
import HybridVault.Provenance
import HybridVault.Escrow
import HybridVault.UniformBelow
import HybridVault.Unbiased
import HybridVault.Validation
import HybridVault.Isolation
import HybridVault.System
import HybridVault.WindDown
import HybridVault.Opening
import HybridVault.Timeline
import HybridVault.Charges
import HybridVault.Launchpad.Vaults
import HybridVault.Launchpad.Layout
