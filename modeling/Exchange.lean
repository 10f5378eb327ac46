import Exchange.Scenario.Play
import Exchange.Text.Layout
import Exchange.Proofs.FinalEvent
import Exchange.Proofs.InterestEnd
import Exchange.Proofs.PushOrder
import Exchange.Proofs.FanOut
import Exchange.Proofs.OpenPoint
import Exchange.Proofs.Panics
import Exchange.Proofs.Account
import Exchange.Proofs.Cancellation
import Exchange.Proofs.Escape
import Exchange.Proofs.Answers
import Exchange.Proofs.Recording
import Exchange.Proofs.Quieting
import Exchange.Proofs.Decline
import Exchange.Proofs.Silence
import Exchange.Proofs.Lifecycle
import Exchange.Proofs.Serial
import Exchange.Proofs.Separation
import Exchange.Proofs.Withdrawal
import Exchange.Proofs.Numbering
import Exchange.Proofs.Containment
import Exchange.Proofs.Priority
import Exchange.Proofs.Explanation
import Exchange.Proofs.SinkSets
import Exchange.Proofs.Setting
import Exchange.Proofs.Parallel
import Exchange.Proofs.Shuffle
