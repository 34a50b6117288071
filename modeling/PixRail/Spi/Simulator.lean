import PixRail.Rail.Model

/-!
# The SPI simulator

`internal/spi/simulator.go`, the SPI client that the repository ships.  It
never fails, and its answer depends on the transfer alone: the identifiers
are the start of a digest, and the time of the submission is the creation
time of the transfer.  Only a transfer without a creation time gets a clock
reading.
-/

namespace PixRail.Spi

open Go Rail

/-- `hex.EncodeToString(sum[:8])`, for the digest that `Submit` takes. -/
def simulatorID (H : Digest) (transfer : Transfer) : GoString :=
  hexEncode ((H.sum256 (transfer.id ++ go ":" ++ transfer.accountID ++ go ":" ++
    transfer.receiverKey)).take 8)

/-- `Simulator.Submit`.  `format` is `Time.Format("20060102150405")`, and
`now` the reading for a transfer without a creation time. -/
def simulatorSubmit (H : Digest) (format : Time → GoString) (transfer : Transfer) (now : Time) :
    Except Err SPIMessage :=
  let submittedAt := if transfer.createdAt = 0 then now else transfer.createdAt
  .ok {
    messageID := go "spi_" ++ simulatorID H transfer
    endToEndID := go "E" ++ format submittedAt ++ simulatorID H transfer
    transferID := transfer.id
    submittedAt := submittedAt }

theorem simulatorSubmit_eq_ok {H : Digest} {format : Time → GoString} {transfer : Transfer}
    {now : Time} {message : SPIMessage}
    (h : simulatorSubmit H format transfer now = .ok message) :
    message.submittedAt = if transfer.createdAt = 0 then now else transfer.createdAt := by
  rw [← Except.ok.inj h]

end PixRail.Spi
