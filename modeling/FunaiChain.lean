import FunaiChain.Settlement.Solvency
import FunaiChain.Settlement.Fund
import FunaiChain.Settlement.InFlight
import FunaiChain.Settlement.FraudProofs
import FunaiChain.Settlement.TimeoutIndex
import FunaiChain.Settlement.Locked
import FunaiChain.Settlement.Halting
import FunaiChain.Settlement.Blame
import FunaiChain.Settlement.Roots
import FunaiChain.Reward.Rounding
import FunaiChain.App.Determinism
import FunaiChain.App.Verifications
import FunaiChain.Settlement.Genesis
import FunaiChain.Registry.Stakes
import FunaiChain.Registry.Rhythm
import FunaiChain.Registry.Statistics
import FunaiChain.Registry.Pubkeys
import FunaiChain.App.Contributions
import FunaiChain.Modelreg.Identity
import FunaiChain.P2p.Tasks
import FunaiChain.P2p.Settling
import FunaiChain.P2p.Verifier
import FunaiChain.P2p.Client
import FunaiChain.P2p.Bech32
