import TokenBridge.SortedMap.Lemmas
import TokenBridge.Text.Utf8
import TokenBridge.Text.Numeral
import TokenBridge.Text.Hex
import TokenBridge.Text.Base64
import TokenBridge.Json.Printer
import TokenBridge.Json.Parser
import TokenBridge.Json.Wire
import TokenBridge.Decimal
import TokenBridge.Keccak
import TokenBridge.Address
import TokenBridge.Ledger
import TokenBridge.Checkpoint
import TokenBridge.Claim
import TokenBridge.Action
import TokenBridge.Registry
import TokenBridge.Batching
import TokenBridge.SignerSet.Requests
import TokenBridge.Housekeeping
import TokenBridge.Admin
import TokenBridge.Chain
import TokenBridge.Reply
import TokenBridge.Proofs.Outcome.Basic
import TokenBridge.Proofs.Outcome.Administration
import TokenBridge.Proofs.Outcome.Escrow
import TokenBridge.Proofs.Outcome.Observation
import TokenBridge.Proofs.Outcome.Refused
import TokenBridge.Proofs.Journal
import TokenBridge.Proofs.Observation.Trace
import TokenBridge.Proofs.Observation.ExactlyOnce
import TokenBridge.Proofs.SortedMap.Listing
import TokenBridge.Proofs.Escrow.Holding
import TokenBridge.Proofs.Escrow.Exchange
import TokenBridge.Proofs.Escrow.Passes
import TokenBridge.Proofs.Escrow.Accounts
import TokenBridge.Proofs.Escrow.Lifecycle
import TokenBridge.Proofs.Escrow.Sums
import TokenBridge.Proofs.Escrow.Conservation
import TokenBridge.Proofs.Escrow.Solvency
import TokenBridge.Proofs.Stakes.Deficit
import TokenBridge.Proofs.Stakes.TotalPower
import TokenBridge.Proofs.Voting.Discipline
import TokenBridge.Proofs.Voting.InTurn
import TokenBridge.Proofs.Stakes.Share
import TokenBridge.Proofs.Voting.TwoThirds
import TokenBridge.Proofs.Observation.Loop
import TokenBridge.Proofs.Observation.Completion
import TokenBridge.Proofs.Observation.Maximal
import TokenBridge.Proofs.Escrow.Matching
import TokenBridge.Proofs.Deposits.Parked
import TokenBridge.Proofs.Deposits.Credited
import TokenBridge.Proofs.Deposits.Pairings
import TokenBridge.Proofs.Escrow.Supply
import TokenBridge.Proofs.Escrow.InTime
import TokenBridge.Proofs.Escrow.Shape
import TokenBridge.Proofs.Observation.Applied
import TokenBridge.Proofs.Voting.Electorate
import TokenBridge.Proofs.Voting.Tally
import TokenBridge.Proofs.Voting.AnyOrder
import TokenBridge.Proofs.Signing.Stored
import TokenBridge.Proofs.Signing.Lasting
import TokenBridge.Proofs.Signing.Drift
import TokenBridge.Proofs.Signing.Confirmed
import TokenBridge.Proofs.Housekeeping.Settled
import TokenBridge.Proofs.Encoding.Words
import TokenBridge.Proofs.Encoding.Records
import TokenBridge.Proofs.Encoding.Fingerprint
import TokenBridge.Proofs.Encoding.Abi
import TokenBridge.Proofs.Encoding.Signed
import TokenBridge.Proofs.Encoding.Addresses
import TokenBridge.Proofs.Encoding.Spelling
import TokenBridge.Proofs.Directory.Keys
import TokenBridge.Proofs.Signing.Ranked
import TokenBridge.Proofs.Signing.Chronicle
import TokenBridge.Proofs.Signing.Canonical
import TokenBridge.Proofs.Signing.Normalised
import TokenBridge.Proofs.Signing.Distance
import TokenBridge.Proofs.Voting.Ballot
import TokenBridge.Proofs.Voting.Acceptance
import TokenBridge.Proofs.Voting.Contents
import TokenBridge.Proofs.Administration.Handover
import TokenBridge.Proofs.Administration.Privileges
import TokenBridge.Proofs.Escrow.BestPaying
import TokenBridge.Proofs.Escrow.Executed
import TokenBridge.Proofs.Escrow.Undone
import TokenBridge.Proofs.Escrow.Apart
import TokenBridge.Proofs.Escrow.Fees
import TokenBridge.Proofs.Signing.Pending
import TokenBridge.Proofs.Outcome.Unwritten
