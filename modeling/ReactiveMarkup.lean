import ReactiveMarkup.Binding
import ReactiveMarkup.Change
import ReactiveMarkup.Component
import ReactiveMarkup.Document.Basic
import ReactiveMarkup.Document.View
import ReactiveMarkup.Error
import ReactiveMarkup.Fields
import ReactiveMarkup.Lens
import ReactiveMarkup.Log
import ReactiveMarkup.Machine
import ReactiveMarkup.Markup.Entity
import ReactiveMarkup.Markup.Event
import ReactiveMarkup.Markup.Forest
import ReactiveMarkup.Markup.Node
import ReactiveMarkup.Markup.Position
import ReactiveMarkup.Markup.Tag
import ReactiveMarkup.Module
import ReactiveMarkup.Mount
import ReactiveMarkup.Number.Binary64
import ReactiveMarkup.Number.Rounding
import ReactiveMarkup.Number.Shortest
import ReactiveMarkup.Path.Access
import ReactiveMarkup.Path.Basic
import ReactiveMarkup.Proofs.Trace
import ReactiveMarkup.Proofs.World
import ReactiveMarkup.Registry
import ReactiveMarkup.Script
import ReactiveMarkup.State
import ReactiveMarkup.Subject
import ReactiveMarkup.Text.Alphabetic
import ReactiveMarkup.Text.Blank
import ReactiveMarkup.Text.CodeRange
import ReactiveMarkup.Text.LetterCase
import ReactiveMarkup.Text.Numeric
import ReactiveMarkup.Value.Basic
import ReactiveMarkup.Value.Reader
import ReactiveMarkup.Value.Text
import ReactiveMarkup.World
import ReactiveMarkup.Proofs.Service
import ReactiveMarkup.Proofs.Callbacks
import ReactiveMarkup.Proofs.Delivery
import ReactiveMarkup.Proofs.Writes
import ReactiveMarkup.Proofs.Notification
import ReactiveMarkup.Proofs.WriteOrder
import ReactiveMarkup.Proofs.Paths
import ReactiveMarkup.Proofs.Document
import ReactiveMarkup.Proofs.Reading
import ReactiveMarkup.Proofs.Syncing
import ReactiveMarkup.Proofs.Sites
import ReactiveMarkup.Proofs.Rendering
import ReactiveMarkup.Proofs.Freshness
import ReactiveMarkup.Proofs.Alike
import ReactiveMarkup.Proofs.Hearing
import ReactiveMarkup.Proofs.Replica
import ReactiveMarkup.Proofs.RenderMoves
import ReactiveMarkup.Proofs.Expansion
import ReactiveMarkup.Proofs.WellFormed
import ReactiveMarkup.Proofs.Departed
import ReactiveMarkup.Proofs.Release
import ReactiveMarkup.Proofs.Spelling
import ReactiveMarkup.Proofs.Writing
import ReactiveMarkup.Proofs.RoundTrip
import ReactiveMarkup.Proofs.Html
import ReactiveMarkup.Proofs.Registration
import ReactiveMarkup.Proofs.Sessions
import ReactiveMarkup.Proofs.Unmounting
import ReactiveMarkup.Proofs.Forest
import ReactiveMarkup.Proofs.Stages
import ReactiveMarkup.Proofs.Isolation
import ReactiveMarkup.Proofs.FloatText
import ReactiveMarkup.Proofs.JsonText
import ReactiveMarkup.Proofs.PlainWrites
import ReactiveMarkup.Proofs.Calls
import ReactiveMarkup.Proofs.PathText
import ReactiveMarkup.Proofs.Resolution
import ReactiveMarkup.Proofs.WriteLaws
import ReactiveMarkup.Proofs.ChangeFilter
import ReactiveMarkup.Proofs.Nesting
import ReactiveMarkup.Proofs.Programs
import ReactiveMarkup.Proofs.Lenses
import ReactiveMarkup.Proofs.Leaving
import ReactiveMarkup.Proofs.Reentry
import ReactiveMarkup.Proofs.Instances
import ReactiveMarkup.Proofs.Outcomes
import ReactiveMarkup.Proofs.Panels
import ReactiveMarkup.Proofs.Typing
import ReactiveMarkup.Proofs.TwoWay
import ReactiveMarkup.Proofs.CallStack
import ReactiveMarkup.Proofs.TaskQueue
import ReactiveMarkup.Proofs.Dispatches
import ReactiveMarkup.Proofs.HookTiming
import ReactiveMarkup.Proofs.EventOrder
import ReactiveMarkup.Proofs.Positions
import ReactiveMarkup.Proofs.EventParts
import ReactiveMarkup.Proofs.ErrorPlaces
import ReactiveMarkup.Proofs.Fragments
import ReactiveMarkup.Proofs.Selection
import ReactiveMarkup.Proofs.Retagging
