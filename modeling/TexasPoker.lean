import TexasPoker.Poker.Layers
import TexasPoker.Settlement.FoldWin
import TexasPoker.Settlement.Totality
import TexasPoker.Settlement.Optimal
import TexasPoker.Settlement.Decoding
import TexasPoker.Runtime.Atomicity
import TexasPoker.Runtime.Client
import TexasPoker.Settlement.Spectators
import TexasPoker.Vault.Conservation
import TexasPoker.Vault.NormalPlay
import TexasPoker.Contracts.Backing
import TexasPoker.Contracts.Solvency
import TexasPoker.Contracts.Claims
import TexasPoker.Wire.Records
import TexasPoker.Wire.Agreement
import TexasPoker.ObjectModel.SmtRuns
import TexasPoker.Runtime.Replay
import TexasPoker.Runtime.PayloadReplay
import TexasPoker.Invariants.Shuffle
import TexasPoker.Invariants.Reveals
import TexasPoker.Invariants.Tokens
import TexasPoker.Invariants.Mucks
import TexasPoker.Invariants.OwnCards
import TexasPoker.HandBatch.Parity
import TexasPoker.Contracts.BatchEntries
import TexasPoker.Contracts.Statement
import TexasPoker.Contracts.Payouts
import TexasPoker.Contracts.SettleOnce
import TexasPoker.Contracts.SettlesRegistered
import TexasPoker.Hooks.SettlementDriver
import TexasPoker.Hooks.Resolution
import TexasPoker.Lib.Liveness
import TexasPoker.Hooks.Progress
import TexasPoker.Hooks.HandIds
import TexasPoker.Contracts.AutoDefaults
import TexasPoker.Contracts.HonestHands
import TexasPoker.PokerGame.Table
import TexasPoker.PokerGame.Mirror
import TexasPoker.PokerGame.Positions
import TexasPoker.PokerGame.Blinds
import TexasPoker.Poker.Nesting
import TexasPoker.PokerGame.Agreement
import TexasPoker.Appchain.Fallback
import TexasPoker.Appchain.BridgeRuns
import TexasPoker.Runtime.PendingRuns
import TexasPoker.Poker.Standard
import TexasPoker.Poker.Evaluate
import TexasPoker.Poker.MoreCards
import TexasPoker.Poker.Networks
import TexasPoker.Invariants.Leaving
import TexasPoker.Vault.LastFold
import TexasPoker.Invariants.Seating
import TexasPoker.Invariants.Runouts
import TexasPoker.Invariants.Rounds
import TexasPoker.Invariants.Forward
import TexasPoker.Invariants.Settling
import TexasPoker.PokerGame.Pots
import TexasPoker.PokerGame.Payout
import TexasPoker.Hooks.Releases
import TexasPoker.Hooks.Departures
import TexasPoker.Lib.Sharing
import TexasPoker.Invariants.Records
