import ManagedCode.Assembly.Declare
import ManagedCode.Assembly.Finalize
import ManagedCode.Describe.Answer
import ManagedCode.Describe.Expression
import ManagedCode.Describe.Value
import ManagedCode.Machine.Host
import ManagedCode.Proofs.Emitter.Depth
import ManagedCode.Proofs.Emitter.Nesting
import ManagedCode.Proofs.Machine.HandlerStay
import ManagedCode.Proofs.Machine.StackDepth
import ManagedCode.Proofs.Assembly.Building
import ManagedCode.Proofs.Assembly.Declaring
import ManagedCode.Proofs.Assembly.Layout
import ManagedCode.Proofs.Assembly.Realization
import ManagedCode.Proofs.Assembly.History
import ManagedCode.Proofs.Assembly.Bases
import ManagedCode.Proofs.Assembly.Overriding
import ManagedCode.Proofs.Assembly.Links
import ManagedCode.Proofs.Assembly.Slots
import ManagedCode.Proofs.Assembly.Implementations
import ManagedCode.Proofs.Assembly.Holders
import ManagedCode.Proofs.Machine.InterfaceCalls
import ManagedCode.Proofs.Assembly.Outlines
import ManagedCode.Proofs.Assembly.Redrawing
import ManagedCode.Proofs.Assembly.Lifetimes
import ManagedCode.Proofs.Assembly.Layers
import ManagedCode.Proofs.Assembly.Anchors
import ManagedCode.Proofs.Assembly.Arrangement
import ManagedCode.Proofs.Assembly.Roots
import ManagedCode.Proofs.Machine.Dispatch
import ManagedCode.Proofs.Machine.VirtualCalls
import ManagedCode.Proofs.Machine.LiveCalls
import ManagedCode.Proofs.Assembly.Interfaces
import ManagedCode.Proofs.Assembly.Visiting
import ManagedCode.Proofs.Assembly.Placement
import ManagedCode.Proofs.Assembly.Circularity
import ManagedCode.Proofs.Assembly.Cycles
import ManagedCode.Proofs.Assembly.CircularInheritance
import ManagedCode.Proofs.Assembly.Contracts
import ManagedCode.Proofs.Assembly.Dependencies
import ManagedCode.Proofs.Assembly.RealizationOrder
import ManagedCode.Proofs.Emitter.Blocks
import ManagedCode.Proofs.Emitter.Protection
import ManagedCode.Proofs.Machine.Bypass
import ManagedCode.Proofs.Machine.Serving
import ManagedCode.Proofs.Machine.Unwinding
import ManagedCode.Proofs.Machine.Control
import ManagedCode.Proofs.Machine.Budget
import ManagedCode.Proofs.Machine.Recursion
import ManagedCode.Proofs.Machine.Instantiation
import ManagedCode.Proofs.Assembly.Registration
import ManagedCode.Proofs.Machine.Coherence
import ManagedCode.Proofs.Assembly.Additions
import ManagedCode.Proofs.Assembly.Refusals
import ManagedCode.Proofs.Assembly.FieldSlots
import ManagedCode.Proofs.Machine.FieldLayout
import ManagedCode.Proofs.Machine.LiveObjects
import ManagedCode.Proofs.Machine.FieldAccess
import ManagedCode.Proofs.Assembly.Referents
import ManagedCode.Proofs.Assembly.Handles
import ManagedCode.Proofs.Machine.Lookups
import ManagedCode.Proofs.Machine.Worlds
import ManagedCode.Proofs.Machine.FrameContents
import ManagedCode.Proofs.Machine.StackForms
import ManagedCode.Proofs.Machine.StaticSides
import ManagedCode.Proofs.Machine.Initialization
import ManagedCode.Proofs.Machine.StaticHistory
import ManagedCode.Proofs.Machine.LoggedFrames
import ManagedCode.Proofs.Machine.IntegerConversions
import ManagedCode.Proofs.Machine.EmittedConversions
import ManagedCode.Proofs.Machine.ArgumentBinding
import ManagedCode.Proofs.Machine.Termination
import ManagedCode.Proofs.Machine.IntegerArithmetic
import ManagedCode.Proofs.Machine.Comparisons
import ManagedCode.Proofs.Machine.Recoding
import ManagedCode.Proofs.Machine.BranchForms
import ManagedCode.Proofs.Emitter.Relaxation
import ManagedCode.Proofs.Emitter.Analysis
import ManagedCode.Proofs.Assembly.Revisions
import ManagedCode.Proofs.Assembly.Literals
import ManagedCode.Proofs.Machine.Derivation
import ManagedCode.Proofs.Assembly.Bodies
import ManagedCode.Proofs.Machine.StraightCode
import ManagedCode.Proofs.Machine.MinimalBodies
import ManagedCode.Proofs.Machine.OwnSlots
import ManagedCode.Proofs.Machine.StaticSlots
import ManagedCode.Proofs.Assembly.AutoProperties
import ManagedCode.Proofs.Machine.BackedProperties
import ManagedCode.Proofs.Machine.PropertyRoundTrip
import ManagedCode.Proofs.Machine.FoldedConversions
import ManagedCode.Proofs.Attribute.Folding
import ManagedCode.Proofs.Assembly.FieldNames
import ManagedCode.Proofs.Attribute.StaticFields
import ManagedCode.Proofs.Machine.LocalSlots
import ManagedCode.Proofs.Assembly.Renaming
import ManagedCode.Proofs.Machine.BoxRoundTrip
import ManagedCode.Proofs.Assembly.MemberLog
import ManagedCode.Proofs.Assembly.Searches
import ManagedCode.Proofs.Machine.Transfers
