/-
# `SelectorStream` — streams of selector events

A CSS selector list is reported as a stream of events, one for each production
of its grammar.  The library names the events and writes them as CSS or in a
stored form, checks that a stream is well formed, hands one stream to several
receivers, and records what each of them was sent.
-/
import SelectorStream.Event.Stored
import SelectorStream.Session
import SelectorStream.Text.Json.Reader
import SelectorStream.Proofs.Acceptance
import SelectorStream.Proofs.Admission
import SelectorStream.Proofs.Broadcast
import SelectorStream.Proofs.Commas
import SelectorStream.Proofs.Commands
import SelectorStream.Proofs.Course
import SelectorStream.Proofs.Echo
import SelectorStream.Proofs.Faults
import SelectorStream.Proofs.Foresight
import SelectorStream.Proofs.Grouping
import SelectorStream.Proofs.Guards
import SelectorStream.Proofs.Hindsight
import SelectorStream.Proofs.Histogram
import SelectorStream.Proofs.LastBar
import SelectorStream.Proofs.Loosening
import SelectorStream.Proofs.Messages
import SelectorStream.Proofs.NormalNotation
import SelectorStream.Proofs.Notices
import SelectorStream.Proofs.Operands
import SelectorStream.Proofs.Payloads
import SelectorStream.Proofs.Refusals
import SelectorStream.Proofs.Replay
import SelectorStream.Proofs.Representation
import SelectorStream.Proofs.Satisfiability
import SelectorStream.Proofs.Shield
import SelectorStream.Proofs.Stamps
import SelectorStream.Proofs.StoredForm
import SelectorStream.Proofs.Unambiguous
