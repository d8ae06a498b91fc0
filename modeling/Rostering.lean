import Rostering.Allocation
import Rostering.Audit
import Rostering.Calendar.Day
import Rostering.Calendar.IsoText
import Rostering.Calendar.Stamp
import Rostering.Criterion
import Rostering.Evaluation
import Rostering.Fairness
import Rostering.Fault
import Rostering.Generation
import Rostering.IndexSet
import Rostering.Intake
import Rostering.Main
import Rostering.Number.Arithmetic
import Rostering.Number.Basic
import Rostering.Number.Binary64
import Rostering.Number.Decimal
import Rostering.Number.Numeral
import Rostering.Number.Share
import Rostering.Number.Statistics
import Rostering.Override
import Rostering.Profile
import Rostering.Proofs.AuditErrors
import Rostering.Proofs.Basic
import Rostering.Proofs.Beginning
import Rostering.Proofs.Coherence
import Rostering.Proofs.Decisions
import Rostering.Proofs.Envy
import Rostering.Proofs.Evenness
import Rostering.Proofs.Extension
import Rostering.Proofs.Faults
import Rostering.Proofs.Filling
import Rostering.Proofs.FirstFit
import Rostering.Proofs.Foresight
import Rostering.Proofs.Generated
import Rostering.Proofs.InputOrder
import Rostering.Proofs.Joining
import Rostering.Proofs.LeadSeats
import Rostering.Proofs.Lockstep
import Rostering.Proofs.NumberOrder
import Rostering.Proofs.Openings
import Rostering.Proofs.Overflow
import Rostering.Proofs.Picks
import Rostering.Proofs.Preparation
import Rostering.Proofs.Queue
import Rostering.Proofs.RankOrder
import Rostering.Proofs.Reading
import Rostering.Proofs.Refusals
import Rostering.Proofs.Reordering
import Rostering.Proofs.Rounding
import Rostering.Proofs.Saturation
import Rostering.Proofs.SecondRun
import Rostering.Proofs.Spacing
import Rostering.Proofs.Target
import Rostering.Proofs.Termination
import Rostering.Proofs.Volunteers
import Rostering.Ranking
import Rostering.Recurrence.Expansion
import Rostering.Recurrence.Rule
import Rostering.Recurrence.Schedule
import Rostering.Recurrence.Text
import Rostering.Recurrence.Timeline
import Rostering.Recurrence.YearDay
import Rostering.Resolution
import Rostering.Roster.Volunteer
import Rostering.Rota.Basic
import Rostering.Rota.Group
import Rostering.Rota.Shift
import Rostering.Rotation
import Rostering.Service.Arguments
import Rostering.Service.Environment
import Rostering.Service.Files
import Rostering.Service.Gate
import Rostering.Service.Launch
import Rostering.Service.Path
import Rostering.Service.Settings
import Rostering.Service.Site
import Rostering.Service.Tools
import Rostering.Summary
import Rostering.Table.Cell
import Rostering.Table.Columns
import Rostering.Table.Csv
import Rostering.Table.Sheet
import Rostering.Text.Blank
import Rostering.Text.Case
import Rostering.Text.Digit
import Rostering.Text.Printable
import Rostering.Text.Quoted
import Rostering.Value.Basic
import Rostering.Value.Convert
import Rostering.Value.Json
import Rostering.Proofs.Scores
import Rostering.Proofs.CivilDays
import Rostering.Proofs.Seats
import Rostering.Proofs.Periods
import Rostering.Proofs.Timelines
import Rostering.Proofs.Hits
import Rostering.Proofs.Steps
import Rostering.Proofs.Windows
import Rostering.Proofs.Columns
import Rostering.Proofs.Quoting
import Rostering.Proofs.Worksheets
import Rostering.Proofs.Overrides
import Rostering.Proofs.Individuals
import Rostering.Proofs.InPlace
import Rostering.Proofs.Headcounts
import Rostering.Proofs.Summaries
import Rostering.Proofs.Distributions
import Rostering.Proofs.Concentration
import Rostering.Proofs.Evaluable
import Rostering.Proofs.Balance
import Rostering.Proofs.PastShifts
import Rostering.Proofs.DateTexts
import Rostering.Proofs.Agreement
import Rostering.Proofs.DateOrder
import Rostering.Proofs.RuleLines
import Rostering.Proofs.RuleTexts
import Rostering.Proofs.EveryWeeks
import Rostering.Proofs.Differences
import Rostering.Proofs.Warnings
import Rostering.Proofs.Reached
import Rostering.Proofs.ExactScores
import Rostering.Proofs.Urgency
import Rostering.Proofs.Growth
import Rostering.Proofs.DecimalRange
import Rostering.Proofs.IndexTexts
import Rostering.Proofs.RuleCopies
