import PixRail.Events.Events

/-!
# The documented life of a transfer

The state diagram of `docs/domain/state-machines.md`, with the events that
go with each arrow.  `none` is the initial pseudo-state of the diagram.  A
`Path` is a walk through the diagram from the initial state, read as the
events along it.
-/

namespace PixRail.Lifecycle

open Rail Events

/-- The arrows of the diagram. -/
inductive Edge : Option TransferStatus → TransferStatus → List EventType → Prop where
  | accept : Edge none .accepted
      [.pixTransferRequested, .dictKeyResolved, .fraudScoreCalculated, .pixTransferAccepted,
        .spiSubmissionRequested]
  | hold : Edge none .review
      [.pixTransferRequested, .dictKeyResolved, .fraudScoreCalculated,
        .pixTransferReviewRequested]
  | block : Edge none .blocked
      [.pixTransferRequested, .dictKeyResolved, .fraudScoreCalculated, .pixTransferBlocked]
  | approveReview : Edge (some .review) .accepted
      [.pixTransferReviewApproved, .spiSubmissionRequested]
  | blockReview : Edge (some .review) .blocked
      [.pixTransferReviewBlocked, .pixTransferBlocked]
  | submit : Edge (some .accepted) .approved [.spiMessageCreated, .pixTransferApproved]
  | settle : Edge (some .approved) .settled [.pixTransferSettled]
  | reject : Edge (some .approved) .rejected [.pixTransferRejected]

/-- `Path st p`: the events `p` lead from the initial state to `st`. -/
inductive Path : Option TransferStatus → List EventType → Prop where
  | start : Path none []
  | step {st : Option TransferStatus} {st' : TransferStatus} {p q : List EventType}
      (hp : Path st p) (he : Edge st st' q) : Path (some st') (p ++ q)

/-- No arrow leaves a terminal state. -/
theorem Edge.not_terminal {st st' : TransferStatus} {q : List EventType}
    (h : Edge (some st) st' q) : ¬ st.Terminal := by
  cases h <;> decide

end PixRail.Lifecycle
