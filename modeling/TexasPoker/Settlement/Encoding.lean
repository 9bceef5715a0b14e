import TexasPoker.Lib.Bytes
import TexasPoker.Settlement.Plan

/-! # Encoding of settlement plans

The fixed-width little-endian encoding a plan's digest is taken of.
-/

namespace TexasPoker

def HandRank.encode (r : HandRank) : Bytes :=
  leBytes 1 r.category ++ r.kickers.flatMap (leBytes 1)

def SeatAmounts.encode (a : SeatAmounts) : Bytes := (List.ofFn a).flatMap (leBytes 8)

def RitStartStreet.encode : RitStartStreet → Bytes
  | .preflop => leBytes 1 0
  | .flop => leBytes 1 1
  | .turn => leBytes 1 2

def SettlementRunoutSchedule.encode : SettlementRunoutSchedule → Bytes
  | .single => leBytes 1 0
  | .twice start => leBytes 1 1 ++ start.encode

/-- A tag byte, and the rank when there is one. -/
def encodeRank : Option HandRank → Bytes
  | none => leBytes 1 0
  | some rank => leBytes 1 1 ++ rank.encode

def RunoutPotPlan.encode (r : RunoutPotPlan) : Bytes :=
  leBytes 8 r.amount ++ leBytes 2 r.winnerMask.toNat ++
    (List.ofFn r.ranks).flatMap encodeRank ++ r.awards.encode

def SettlementPotPlan.encode (p : SettlementPotPlan) : Bytes :=
  leBytes 1 p.potIndex ++ leBytes 8 p.grossAmount ++ leBytes 8 p.rake ++ leBytes 8 p.netAmount ++
    leBytes 2 p.eligibleMask.toNat ++ (List.ofFn p.runouts).flatMap RunoutPotPlan.encode

namespace SettlementPlan

def encode (p : SettlementPlan) : Bytes :=
  leBytes 1 p.version ++ p.schedule.encode ++ leBytes 8 p.grossPot ++ leBytes 8 p.rake ++
    leBytes 8 p.totalAwards ++ leBytes 2 p.winnerMask.toNat ++ p.awards.encode ++
    leBytes 1 p.potCount ++ (List.ofFn p.pots).flatMap SettlementPotPlan.encode

/-- What the digest of a plan hashes: the domain and the encoding. -/
def digestInput (p : SettlementPlan) : Bytes :=
  textBytes "zchain.texas_poker.settlement_plan.v3" ++ p.encode

end SettlementPlan

end TexasPoker
